import ChilopodCaster.ServerKeepalive

/-!
# What stands behind a request

The handlers of requests read the fields of the session, and never its input buffer: with more bytes
in the buffer, a request is handled in the same way, and the bytes stay where they are. Only a body
that comes in chunks looks ahead, since the decoder starts on what is there.

## Main definitions

* `Outcome.receive` — an outcome, with more bytes in the buffer
* `prepared` — a session that is ready for the content of its request

## Main results

* `handleHeader_receive`, `dispatch_receive`, `endContent_receive` — the bytes behind a header,
  behind the headers and behind the content
-/

namespace ChilopodCaster

namespace Ntripsrv

open ChunkDecode

variable {W G : Type} {c : Caster W G} {config : Config} {s s' : Server W G}

/-! ### What stands behind a request -/

/-- The handler's outcome, with more bytes in the buffer. -/
def Handled.receive (bytes : List Byte) (h : Handled W G) : Handled W G :=
  { h with s := h.s.receive bytes }

/-- The outcome, with more bytes in the buffer. -/
def Outcome.receive (bytes : List Byte) : Outcome W G → Outcome W G
  | .inl s => .inl (s.receive bytes)
  | .inr (.ok (s, l)) => .inr (.ok (s.receive bytes, l))
  | .inr (.error f) => .inr (.error f)

variable (bytes : List Byte)

/-! What a handler looks at is the same with more bytes in the buffer. -/

@[simp] theorem receive_w : (s.receive bytes).w = s.w := by rfl
@[simp] theorem receive_jobs : (s.receive bytes).jobs = s.jobs := by rfl
@[simp] theorem receive_ipcount : (s.receive bytes).ipcount = s.ipcount := by rfl
@[simp] theorem receive_state : (s.receive bytes).st.state = s.st.state := by rfl
@[simp] theorem receive_peer : (s.receive bytes).st.peer = s.st.peer := by rfl
@[simp] theorem receive_user : (s.receive bytes).st.user = s.st.user := by rfl
@[simp] theorem receive_password : (s.receive bytes).st.password = s.st.password := by rfl
@[simp] theorem receive_content : (s.receive bytes).st.content = s.st.content := by rfl
@[simp] theorem receive_httpArgs : (s.receive bytes).st.httpArgs = s.st.httpArgs := by rfl
@[simp] theorem receive_nHttpArgs : (s.receive bytes).st.nHttpArgs = s.st.nHttpArgs := by rfl
@[simp] theorem receive_lastPos : (s.receive bytes).st.lastPos = s.st.lastPos := by rfl
@[simp] theorem receive_schemeBasic : (s.receive bytes).st.schemeBasic = s.st.schemeBasic := by rfl
@[simp] theorem receive_contentLength :
    (s.receive bytes).st.contentLength = s.st.contentLength := by rfl
@[simp] theorem receive_clientVersion :
    (s.receive bytes).st.clientVersion = s.st.clientVersion := by rfl
@[simp] theorem receive_connectionKeepalive :
    (s.receive bytes).st.connectionKeepalive = s.st.connectionKeepalive := by rfl
@[simp] theorem receive_receivedKeepalive :
    (s.receive bytes).st.receivedKeepalive = s.st.receivedKeepalive := by rfl

@[simp] theorem setState_receive (state : SessionState) :
    (s.receive bytes).setState state = (s.setState state).receive bytes := rfl
@[simp] theorem record_receive (e : Event) :
    (s.receive bytes).record e = (s.record e).receive bytes := rfl
@[simp] theorem forceHttp_receive : (s.receive bytes).forceHttp = s.forceHttp.receive bytes := rfl
@[simp] theorem sendServerReply_receive (statusCode : ℕ) (headers : List (CString × CString))
    (firstword : Option CString) (m : Option Content) :
    sendServerReply (s.receive bytes) statusCode headers firstword m =
      (sendServerReply s statusCode headers firstword m).receive bytes := rfl

@[simp] theorem receive_inl : Outcome.receive bytes (.inl s) = .inl (s.receive bytes) := rfl

@[simp] theorem receive_inr_ok (l : Leave) :
    Outcome.receive bytes (.inr (.ok (s, l))) = .inr (.ok (s.receive bytes, l)) := rfl

@[simp] theorem receive_inr_error (f : Fault) :
    Outcome.receive bytes (.inr (.error f) : Outcome W G) = .inr (.error f) := rfl

@[simp] theorem receive_leave (err : ℕ) :
    (leave s err).receive bytes = leave (s.receive bytes) err := rfl

@[simp] theorem receive_goOn (h : Handled W G) :
    (goOn h).receive bytes = goOn (h.receive bytes) := by
  rw [goOn, goOn, Handled.receive]
  split <;> rfl

@[simp] theorem sendResultOk_receive (mimeType : Option CString) (m : Option Content) :
    sendResultOk (s.receive bytes) mimeType m = (sendResultOk s mimeType m).receive bytes := by
  unfold sendResultOk
  by_cases hversion : s.st.clientVersion = 1
  · simp [hversion]
  · simp [hversion]

@[simp] theorem sendSourcetable_receive :
    sendSourcetable c (s.receive bytes) =
      ((sendSourcetable c s).1.receive bytes, (sendSourcetable c s).2) := by
  rw [sendSourcetable, sendSourcetable, receive_w]
  cases c.sourcetableGet s.w with
  | none => rfl
  | some text => rfl

theorem ntripDecrefEnd_receive (st : Session) :
    ntripDecrefEnd { st with rawInput := st.rawInput ++ bytes } =
      { ntripDecrefEnd st with rawInput := (ntripDecrefEnd st).rawInput ++ bytes } := by
  unfold ntripDecrefEnd
  by_cases hend : st.state = .ntripEnd
  · simp [hend]
  · simp only [hend, if_false]
    split <;> rfl

@[simp] theorem decrefEnd_receive :
    decrefEnd (s.receive bytes) = (decrefEnd s).receive bytes :=
  congrArg (fun session => ({ s with st := { s.st with toSession := session } } : Server W G))
    (ntripDecrefEnd_receive bytes s.st.toSession)

/-- The end of `ntripsrv_deferred_output`, which replies unless the session has ended. -/
def replyAnswer (s : Server W G) (status : ℕ) (m : Option Content) : Server W G :=
  if s.st.state ≠ .ntripEnd then
    (sendServerReply s status [] none m).setState
      (if s.st.connectionKeepalive ∧ s.st.receivedKeepalive then .waitHttpMethod else .waitClose)
  else s

theorem replyAnswer_receive (status : ℕ) (m : Option Content) :
    replyAnswer (s.receive bytes) status m = (replyAnswer s status m).receive bytes := by
  unfold replyAnswer
  by_cases hend : s.st.state = .ntripEnd
  · simp [hend]
  · simp [hend]

theorem deferredOutput_eq (contentCb : ContentCb) (req : Request) (s : Server W G) :
    deferredOutput c s contentCb req =
      (let answer := c.contentCb contentCb s.w req
      if contentCb = .drop ∧ s.st.state ≠ .ntripEnd ∧ c.dropsItself s.w req then
        if c.threads then
          .ok (replyAnswer (decrefEnd { s with w := answer.w }) answer.status answer.m)
        else .error .freedSession
      else .ok (replyAnswer { s with w := answer.w } answer.status answer.m)) := by
  unfold deferredOutput replyAnswer
  by_cases hdrops : contentCb = .drop ∧ s.st.state ≠ .ntripEnd ∧ c.dropsItself s.w req = true
  · cases hthreads : c.threads with
    | false => simp [hdrops]
    | true => simp [hdrops, state_decrefEnd]
  · dsimp only
    rw [if_neg (fun h => hdrops h.1), if_neg hdrops, if_neg hdrops]
    split <;> rfl

theorem deferredOutput_receive (contentCb : ContentCb) (req : Request) :
    deferredOutput c (s.receive bytes) contentCb req =
      (deferredOutput c s contentCb req).map (Server.receive · bytes) := by
  have hw (w : W) : { s.receive bytes with w := w } = Server.receive { s with w := w } bytes := rfl
  rw [deferredOutput_eq, deferredOutput_eq]
  dsimp only
  rw [hw, decrefEnd_receive, replyAnswer_receive, replyAnswer_receive]
  simp only [receive_w, receive_state]
  by_cases hdrops : contentCb = .drop ∧ s.st.state ≠ .ntripEnd ∧ c.dropsItself s.w req = true
  · rw [if_pos hdrops, if_pos hdrops]
    split <;> rfl
  · rw [if_neg hdrops, if_neg hdrops]
    rfl

theorem appendContent_receive (contentCb : ContentCb) (req : Request) :
    appendContent c (s.receive bytes) contentCb req =
      (appendContent c s contentCb req).map (Server.receive · bytes) := by
  rw [appendContent, appendContent]
  split
  · rfl
  · exact deferredOutput_receive bytes contentCb req

theorem Plan.run_receive (plan : Plan) :
    plan.run c (s.receive bytes) = (plan.run c s).map (Handled.receive bytes) := by
  cases plan with
  | fail plain err headers herr =>
    cases plain with
    | false => rfl
    | true => rfl
  | page m => rw [Plan.run, forceHttp_receive, sendResultOk_receive]; rfl
  | noMemory => rfl
  | call contentCb req =>
    rw [Plan.run, Plan.run, forceHttp_receive, appendContent_receive]
    cases appendContent c s.forceHttp contentCb req <;> rfl
  | sync req =>
    rw [Plan.run, Plan.run, forceHttp_receive, deferredOutput_receive]
    cases deferredOutput c s.forceHttp .sync req <;> rfl

theorem sameRequest_receive : SameRequest s (s.receive bytes) := ⟨rfl, rfl, rfl, rfl, rfl, rfl, rfl⟩

theorem admsrv_receive (method rootUri uri : CString) :
    admsrv c config (s.receive bytes) method rootUri uri =
      (admsrv c config s method rootUri uri).map (Handled.receive bytes) := by
  obtain ⟨plan, hplan⟩ := exists_plan_admsrv c config s method rootUri uri
  have hrun : admsrv c config s method rootUri uri = plan.run c s := hplan c.threads s (.refl s)
  have hrun' : admsrv c config (s.receive bytes) method rootUri uri =
    plan.run c (s.receive bytes) := hplan c.threads _ (sameRequest_receive bytes)
  rw [hrun, hrun', plan.run_receive]

theorem filesrv_receive (uri : CString) :
    filesrv c config (s.receive bytes) uri =
      (filesrv c config s uri).map (Handled.receive bytes) := by
  obtain ⟨plan, hplan⟩ := exists_plan_filesrv c config s uri
  have hrun : (filesrv c config s uri).map Except.ok = plan.map (Plan.run c s) :=
    hplan c.threads s (.refl s)
  have hrun' : (filesrv c config (s.receive bytes) uri).map Except.ok =
    plan.map (Plan.run c (s.receive bytes)) := hplan c.threads _ (sameRequest_receive bytes)
  cases plan with
  | none =>
    rw [Option.map_eq_none_iff.mp hrun, Option.map_eq_none_iff.mp hrun']
    rfl
  | some plan =>
    obtain ⟨h, hfile, hok⟩ := Option.map_eq_some_iff.mp hrun
    obtain ⟨h', hfile', hok'⟩ := Option.map_eq_some_iff.mp hrun'
    rw [Plan.run_receive, ← hok] at hok'
    rw [hfile, hfile', Except.ok.inj hok']
    rfl

theorem getSourcetable_receive :
    getSourcetable c (s.receive bytes) = (getSourcetable c s).receive bytes := by
  rw [getSourcetable, getSourcetable, sendSourcetable_receive]
  simp [apply_ite (Outcome.receive bytes), Handled.receive]

theorem startStream_receive (mountpoint : CString) (virtual : Bool) :
    startStream (s.receive bytes) mountpoint virtual =
      (startStream s mountpoint virtual).receive bytes := by
  have hst : { s.receive bytes with st := { (s.receive bytes).st with
      connectionKeepalive := false
      sourceVirtual := virtual
      mountpoint := some mountpoint } } = Server.receive { s with st := { s.st with
        connectionKeepalive := false
        sourceVirtual := virtual
        mountpoint := some mountpoint } } bytes := rfl
  rw [startStream, startStream]
  dsimp only
  rw [hst, sendResultOk_receive]
  simp [apply_ite (Server.receive · bytes)]

/-- What `getMountpoint` notes of the mountpoint it has looked up. -/
def Server.found (s : Server W G) : Option SourceFlags → Server W G
  | none => s
  | some sourceline => { s with st := { s.st with
      connectionKeepalive := false
      sourceVirtual := sourceline.virtual } }

/-- What `getMountpoint` does then. -/
def mountpointFound (c : Caster W G) (s : Server W G) (mountpoint : CString) (subscribeOk : Bool) :
    Option SourceFlags → Outcome W G
  | none =>
    if subscribeOk then .inl (startStream s mountpoint false)
    else if s.st.clientVersion = 1 then getSourcetable c s
    else leave { s with st := { s.st with connectionKeepalive := false } } 404
  | some sourceline =>
    if sourceline.virtual ∨ subscribeOk then .inl (startStream s mountpoint sourceline.virtual)
    else if s.st.clientVersion = 1 then
      leave ((sendSourcetable c s).1.setState .waitClose) (sendSourcetable c s).2
    else leave s 404

theorem getMountpoint_eq (s : Server W G) (mountpoint : CString) :
    getMountpoint c s mountpoint =
      (let sourceline := c.stackFindMountpoint s.w mountpoint
      let r := if sourceline.all (!·.virtual) then
          c.livesourceFindAndSubscribe s.w mountpoint (sourceline.any (·.onDemand))
        else (false, s.w)
      let s := { s with w := r.2 }
      let s := if r.1 then s.record (.subscribe mountpoint) else s
      mountpointFound c (s.found sourceline) mountpoint r.1 sourceline) := by
  unfold getMountpoint
  cases c.stackFindMountpoint s.w mountpoint <;> rfl

theorem mountpointFound_receive (mountpoint : CString) (subscribeOk : Bool)
    (sourceline : Option SourceFlags) :
    mountpointFound c (s.receive bytes) mountpoint subscribeOk sourceline =
      (mountpointFound c s mountpoint subscribeOk sourceline).receive bytes := by
  cases sourceline with
  | none =>
    rw [mountpointFound, mountpointFound]
    simp only [startStream_receive, getSourcetable_receive, receive_clientVersion,
      apply_ite (Outcome.receive bytes), receive_inl]
    rfl
  | some sourceline =>
    rw [mountpointFound, mountpointFound]
    simp only [startStream_receive, sendSourcetable_receive, receive_clientVersion,
      setState_receive, apply_ite (Outcome.receive bytes), receive_inl, receive_leave]

theorem found_receive (sourceline : Option SourceFlags) :
    (s.receive bytes).found sourceline = (s.found sourceline).receive bytes := by
  cases sourceline <;> rfl

theorem getMountpoint_receive (mountpoint : CString) :
    getMountpoint c (s.receive bytes) mountpoint =
      (getMountpoint c s mountpoint).receive bytes := by
  have hw (w : W) : { s.receive bytes with w := w } = Server.receive { s with w := w } bytes := rfl
  rw [getMountpoint_eq, getMountpoint_eq]
  dsimp only
  rw [hw, receive_w, ← mountpointFound_receive, record_receive,
    ← apply_ite (Server.receive · bytes), found_receive]

/-- What `sourceRequest` does once the mountpoint has been looked up. -/
def sourceFound (s : Server W G) (mountpoint : CString) (connected : ℤ) : Outcome W G :=
  if connected = 0 then .inr (.ok (s, ⟨409, true, []⟩))
  else if connected < 0 then .inr (.ok (s, ⟨503, true, []⟩))
  else
    let s := s.record (.connected mountpoint)
    .inl ((if s.st.clientVersion = 1 then s.record (.reply (.text (cstr "ICY 200 OK\r\n\r\n")))
      else sendResultOk s none none).setState .waitStreamSource)

theorem sourceFound_receive (mountpoint : CString) (connected : ℤ) :
    sourceFound (s.receive bytes) mountpoint connected =
      (sourceFound s mountpoint connected).receive bytes := by
  rw [sourceFound, sourceFound]
  simp only [apply_ite (Outcome.receive bytes), receive_inl, receive_inr_ok, record_receive,
    sendResultOk_receive, receive_clientVersion, ← apply_ite (Server.receive · bytes),
    setState_receive]

theorem sourceRequest_eq (s : Server W G) (mountpoint password : CString) (user : Option CString) :
    sourceRequest c config s mountpoint user password =
      (let r := checkPassword config.sourceAuth mountpoint user password
      let sourceline := c.stackFindLocalMountpoint s.w mountpoint
      if r = .mountpointInvalid then .inr (.ok (s, ⟨401, true, []⟩))
      else if sourceline.any (·.virtual) then .inr (.ok (s, ⟨404, true, []⟩))
      else if sourceline = none ∧ r ≠ .mountpointWildcard then .inr (.ok (s, ⟨404, true, []⟩))
      else
        sourceFound { s with
          st := { s.st with mountpoint := some mountpoint }
          w := (c.livesourceConnected s.w mountpoint).2 } mountpoint
          (c.livesourceConnected s.w mountpoint).1) := rfl

theorem sourceRequest_receive (mountpoint password : CString) (user : Option CString) :
    sourceRequest c config (s.receive bytes) mountpoint user password =
      (sourceRequest c config s mountpoint user password).receive bytes := by
  rw [sourceRequest_eq, sourceRequest_eq]
  dsimp only
  rw [receive_w]
  simp only [apply_ite (Outcome.receive bytes), receive_inr_ok, ← sourceFound_receive]
  rfl

theorem getRequest_receive (uri : CString) :
    getRequest c config (s.receive bytes) uri = (getRequest c config s uri).receive bytes := by
  rw [getRequest, getRequest, admsrv_receive, filesrv_receive]
  simp only [apply_ite (Outcome.receive bytes), getSourcetable_receive, getMountpoint_receive,
    receive_user, receive_password, receive_peer, receive_leave]
  congr 2
  · cases admsrv c config s (cstr "GET") (cstr "/adm") (uri.drop 4) <;> rfl
  · cases filesrv c config s uri with
    | some h => rfl
    | none => simp only [Option.map_none, apply_ite (Outcome.receive bytes), receive_leave]

theorem postRequest_receive (uri : CString) :
    postRequest c config (s.receive bytes) uri = (postRequest c config s uri).receive bytes := by
  have hst : { s.receive bytes with st := { (s.receive bytes).st with
      connectionKeepalive := false
      clientVersion := 2 } } = Server.receive { s with st := { s.st with
        connectionKeepalive := false
        clientVersion := 2 } } bytes := rfl
  rw [postRequest, postRequest, admsrv_receive]
  dsimp only
  rw [hst]
  simp only [apply_ite (Outcome.receive bytes), receive_contentLength, receive_schemeBasic,
    receive_leave, receive_inl, receive_inr_ok, receive_user, receive_password, setState_receive]
  congr 2
  · cases admsrv c config s (cstr "POST") (cstr "/adm") (uri.drop 4) with
    | error f => rfl
    | ok h =>
      exact (receive_goOn bytes { h with s := h.s.setState .waitHttpMethod }).symm
  · congr 1
    cases s.st.user with
    | none => rfl
    | some user =>
      cases s.st.password with
      | none => rfl
      | some password => exact sourceRequest_receive bytes uri.tail password (some user)

theorem oldSourceRequest_receive (password mountpoint : CString) :
    oldSourceRequest c config (s.receive bytes) password mountpoint =
      (oldSourceRequest c config s password mountpoint).receive bytes := by
  have hst : { s.receive bytes with st := { (s.receive bytes).st with
      connectionKeepalive := false
      clientVersion := 1 } } = Server.receive { s with st := { s.st with
        connectionKeepalive := false
        clientVersion := 1 } } bytes := rfl
  rw [oldSourceRequest, oldSourceRequest]
  dsimp only
  rw [hst, sourceRequest_receive, receive_nHttpArgs]
  simp only [apply_ite (Outcome.receive bytes), receive_leave]

/-- **What stands behind a request is not looked at.** -/
theorem dispatch_receive :
    dispatch c config (s.receive bytes) = (dispatch c config s).receive bytes := by
  rw [dispatch, dispatch, receive_httpArgs]
  split
  · simp only [apply_ite (Outcome.receive bytes), receive_leave, getRequest_receive,
      postRequest_receive, oldSourceRequest_receive]
  · rfl

theorem endContent_receive :
    endContent c config (s.receive bytes) = (endContent c config s).receive bytes := by
  rw [endContent, endContent]
  simp only [receive_content, record_receive, receive_httpArgs]
  split
  · next method uri _ _ =>
    rw [admsrv_receive]
    simp only [setState_receive, apply_ite (Outcome.receive bytes), receive_inl]
    congr 1
    cases admsrv c config (s.record (.content (s.st.content.getD []))) method (cstr "/adm")
        (uri.drop 4) with
    | error f => rfl
    | ok h => exact (receive_goOn bytes { h with s := h.s.setState .waitHttpMethod }).symm
  · rfl

/-! ### What stands behind the headers -/

theorem setHeader_receive (value : CString) (kind : HeaderKind) :
    setHeader c config (s.receive bytes).st value kind =
      ({ (setHeader c config s.st value kind).1 with
          rawInput := (setHeader c config s.st value kind).1.rawInput ++ bytes },
        (setHeader c config s.st value kind).2) := by
  cases kind with
  | transferEncoding => rw [setHeader, setHeader]; split <;> rfl
  | connection => rw [setHeader, setHeader]; split <;> rfl
  | contentLength =>
    rw [setHeader, setHeader]
    split
    · split <;> rfl
    · rfl
  | ntripVersion => rw [setHeader, setHeader]; split <;> rfl
  | agent => rw [setHeader, setHeader]; split <;> rfl
  | authorization => rw [setHeader, setHeader]; split <;> rfl
  | ntripGga => rw [setHeader, setHeader]; split <;> rfl
  | contentType => rfl
  | host => rfl
  | forwarded => rfl
  | other => rfl

theorem handleForwardedHeader_receive (value : CString) :
    handleForwardedHeader config (s.receive bytes) value =
      (handleForwardedHeader config s value).map fun r => (r.1.receive bytes, r.2) := by
  rw [handleForwardedHeader, handleForwardedHeader]
  simp only [receive_peer, receive_ipcount]
  split
  · rfl
  · split
    · rfl
    · split <;> rfl

theorem handleHeader_receive (key value : CString) :
    handleHeader c config (s.receive bytes) key value =
      (handleHeader c config s key value).map fun r => (r.1.receive bytes, r.2) := by
  rw [handleHeader, handleHeader, handleForwardedHeader_receive, setHeader_receive]
  dsimp only
  split <;> rfl

/-- The session made ready for the content, if the content does not come in chunks. -/
def prepared (config : Config) (s : Server W G) : Server W G :=
  let st := cutQuery { s.st with
    content := if s.st.contentLength ≠ 0 then some [] else s.st.content
    connectionKeepalive := s.st.clientVersion ≠ 1 ∧ s.st.connectionKeepalive }
  { s with st := st }.record (.request st.httpArgs st.headers st.peer.remoteAddr config)

theorem prepare_eq (h : s.st.chunkState ≠ .chunkInit) :
    prepare config s = .ok (prepared config s) := by
  rw [prepare]
  dsimp only
  rw [if_neg h]
  rfl

theorem cutQuery_receive (st : NtripState G) :
    cutQuery { st with rawInput := st.rawInput ++ bytes } =
      { cutQuery st with rawInput := (cutQuery st).rawInput ++ bytes } := by
  unfold cutQuery
  dsimp only
  split
  · split <;> rfl
  · rfl

theorem prepared_receive :
    prepared config (s.receive bytes) = (prepared config s).receive bytes :=
  congrArg (fun st => ({ s with st := st } : Server W G).record
      (.request st.httpArgs st.headers st.peer.remoteAddr config))
    (cutQuery_receive bytes { s.st with
      content := if s.st.contentLength ≠ 0 then some [] else s.st.content
      connectionKeepalive := decide (s.st.clientVersion ≠ 1 ∧ s.st.connectionKeepalive = true) })

theorem endHeaders_eq (h : s.st.chunkState ≠ .chunkInit) :
    endHeaders c config s = dispatch c config (prepared config s) := by
  rw [endHeaders, prepare_eq h]

end Ntripsrv

end ChilopodCaster
