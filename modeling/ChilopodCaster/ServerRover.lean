import ChilopodCaster.Lib.Transition
import ChilopodCaster.ServerRound

/-!
# Rover streams

A client that asks for a mountpoint is a rover. If the configuration names a file of rover accounts,
its request has to carry the user and the password of an enabled account, unless it comes from the
machine of the caster. The check stands in one branch of `ntripsrv_readcb`; a session can be
subscribed there, by the job of a subscription, and again and again by the jobs that follow the
position of a client of a virtual source.

## Main definitions

* `Event.isRover` — a subscription, or the reply that starts a stream
* `RoverSafe` — in a log, each such event comes after a request that may have a stream
* `Rover` — a connection, with the switches of its virtual source

## Main results

* `Rover.reachable_roverSafe` — no stream without the credentials of the request that asks for it
-/

namespace ChilopodCaster

namespace Ntripsrv

open ChunkDecode

variable {W G : Type} {c : Caster W G} {config : Config} {s s' s'' : Server W G}

/-! ### Requests and streams in the log -/

/-- A request, when its headers have been read. -/
structure Dispatched where
  httpArgs : List CString
  headers : List Header
  remoteAddr : CString
  config : Config

/-- The request may have a stream: accounts are not asked for, it comes from the machine of the
caster, or it carries the user and the password of an enabled account. -/
def Dispatched.MayStream (r : Dispatched) : Prop :=
  r.config.roverAuthFilename.isSome → roverAuthExemptPeer r.remoteAddr = false →
    ∃ header ∈ r.headers, header.kind = .authorization ∧
      ∃ credentials, httpDecodeAuth header.value = some credentials ∧
        ∃ auth e, r.config.roverAuth = some auth ∧ e ∈ auth ∧ e.enabled = true ∧
          e.user = credentials.user ∧ e.password = credentials.password

/-- The request that an event records. -/
def Event.request? : Event → Option Dispatched
  | .request httpArgs headers remoteAddr config => some ⟨httpArgs, headers, remoteAddr, config⟩
  | _ => none

/-- The reply that starts a stream to a client: `ntripsrv_send_stream_result_ok`, with the type of
a stream. -/
def Reply.isStream : Reply → Bool
  | .text s => s = icyStream
  | .server _ statusCode _ _ _ headers =>
    statusCode = 200 ∧ (cstr "Content-Type", cstr "gnss/data") ∈ headers

/-- The session is subscribed, or told that it is. -/
def Event.isRover : Event → Bool
  | .subscribe _ => true
  | .reply r => r.isStream
  | _ => false

/-- The last request of a log. -/
def lastRequest (log : List Event) : Option Dispatched :=
  log.foldl (fun last e => e.request?.or last) none

/-- The last request of a log may have a stream. -/
def Opened (log : List Event) : Prop := ∃ r, lastRequest log = some r ∧ r.MayStream

/-- Each stream comes after a request that may have it. -/
def RoverSafe (log : List Event) : Prop :=
  ∀ before e after, log = before ++ e :: after → e.isRover = true → Opened before

theorem lastRequest_append_singleton (log : List Event) (e : Event) :
    lastRequest (log ++ [e]) = e.request?.or (lastRequest log) := by
  rw [lastRequest, List.foldl_append]
  rfl

theorem roverSafe_nil : RoverSafe [] := by
  intro before e after h
  simp at h

theorem RoverSafe.append_singleton {log : List Event} (h : RoverSafe log) {e : Event}
    (he : e.isRover = true → Opened log) : RoverSafe (log ++ [e]) := by
  intro before e' after heq hrover
  rcases List.eq_nil_or_concat after with rfl | ⟨after, last, rfl⟩
  · obtain ⟨rfl, hlast⟩ := List.append_inj' heq rfl
    obtain rfl := (List.cons.inj hlast).1
    exact he hrover
  · have hinit : log = before ++ e' :: after := by
      rw [List.concat_eq_append, ← List.cons_append, ← List.append_assoc] at heq
      exact (List.append_inj' heq rfl).1
    exact h before e' after hinit hrover

/-- Events that are not requests, after a request that may have a stream. -/
theorem RoverSafe.append {log events : List Event} (h : RoverSafe log)
    (hrequest : ∀ e ∈ events, e.request? = none)
    (hrover : ∀ e ∈ events, e.isRover = true → Opened log) :
    RoverSafe (log ++ events) ∧ lastRequest (log ++ events) = lastRequest log := by
  induction events generalizing log with
  | nil => rw [List.append_nil]; exact ⟨h, rfl⟩
  | cons e events ih =>
    have hlast : lastRequest (log ++ [e]) = lastRequest log := by
      rw [lastRequest_append_singleton, hrequest e List.mem_cons_self, Option.none_or]
    have hopened : Opened (log ++ [e]) = Opened log := by rw [Opened, Opened, hlast]
    have htail := ih (h.append_singleton (hrover e List.mem_cons_self))
      (fun e' he' => hrequest e' (List.mem_cons_of_mem e he'))
      (fun e' he' => hopened ▸ hrover e' (List.mem_cons_of_mem e he'))
    rw [List.append_assoc, List.singleton_append] at htail
    exact ⟨htail.1, htail.2.trans hlast⟩

/-! ### Answers that start no stream -/

/-- The log of `s'` is that of `s`, with more events of some kind. -/
def Logs (P : Event → Prop) (s s' : Server W G) : Prop :=
  ∃ events, s'.log = s.log ++ events ∧ ∀ e ∈ events, P e

variable {P Q : Event → Prop}

theorem logs_of_eq (hlog : s'.log = s.log) : Logs P s s' :=
  ⟨[], by rw [hlog, List.append_nil], fun e he => by contradiction⟩

theorem logs_record (s : Server W G) {e : Event} (he : P e) : Logs P s (s.record e) := by
  refine ⟨[e], rfl, fun e' he' => ?_⟩
  rw [List.mem_singleton.mp he']
  exact he

theorem Logs.trans (h : Logs P s s') (h' : Logs P s' s'') : Logs P s s'' := by
  obtain ⟨events, hlog, hP⟩ := h
  obtain ⟨events', hlog', hP'⟩ := h'
  refine ⟨events ++ events', by rw [hlog', hlog, List.append_assoc], fun e he => ?_⟩
  rcases List.mem_append.mp he with he | he
  · exact hP e he
  · exact hP' e he

theorem Logs.mono (h : Logs P s s') (hPQ : ∀ e, P e → Q e) : Logs Q s s' := by
  obtain ⟨events, hlog, hP⟩ := h
  exact ⟨events, hlog, fun e he => hPQ e (hP e he)⟩

/-- An event that is not a request. -/
def Event.Answers (e : Event) : Prop := e.request? = none

/-- An event that is neither a request nor a stream. -/
def Event.Quiet (e : Event) : Prop := e.request? = none ∧ e.isRover = false

/-- The connection `s'` is `s` after some work that started no stream and recorded no request. -/
structure Quietly (s s' : Server W G) : Prop where
  log : Logs Event.Quiet s s'
  sourceVirtual : s'.st.sourceVirtual = s.st.sourceVirtual

theorem quietly_of_eq (hlog : s'.log = s.log) (h : s'.st.sourceVirtual = s.st.sourceVirtual) :
    Quietly s s' :=
  ⟨logs_of_eq hlog, h⟩

theorem Quietly.refl (s : Server W G) : Quietly s s := quietly_of_eq rfl rfl

theorem Quietly.trans (h : Quietly s s') (h' : Quietly s' s'') : Quietly s s'' :=
  ⟨h.log.trans h'.log, h'.sourceVirtual.trans h.sourceVirtual⟩

theorem quietly_forceHttp (s : Server W G) : Quietly s s.forceHttp := quietly_of_eq rfl rfl

theorem quietly_setState (s : Server W G) (state : SessionState) :
    Quietly s (s.setState state) := quietly_of_eq rfl rfl

theorem quietly_record (s : Server W G) {e : Event} (hrequest : e.request? = none)
    (hrover : e.isRover = false) : Quietly s (s.record e) :=
  ⟨logs_record s ⟨hrequest, hrover⟩, rfl⟩

theorem quietly_sendServerReply (s : Server W G) (statusCode : ℕ)
    (headers : List (CString × CString)) (firstword : Option CString) (m : Option Content)
    (h : statusCode ≠ 200 ∨ (cstr "Content-Type", cstr "gnss/data") ∉ headers) :
    Quietly s (sendServerReply s statusCode headers firstword m) := by
  refine quietly_record s rfl (decide_eq_false fun hstream => ?_)
  rcases h with h | h
  · exact h hstream.1
  · exact h hstream.2

theorem quietly_sendSourcetable (c : Caster W G) (s : Server W G) :
    Quietly s (sendSourcetable c s).1 ∧ (sendSourcetable c s).2 ≠ 200 := by
  rw [sendSourcetable]
  split
  · exact ⟨.refl s, by simp⟩
  · exact ⟨quietly_sendServerReply s _ _ _ _ (.inr List.not_mem_nil), by simp⟩

/-- A page, or the reply to a source: no type is given for a stream. -/
theorem quietly_sendResultOk (s : Server W G) (m : Option Content) (h : s.st.clientVersion ≠ 1) :
    Quietly s (sendResultOk s none m) := by
  unfold sendResultOk
  rw [if_neg h]
  refine quietly_sendServerReply s _ _ _ _ (.inr ?_)
  have hnot : (cstr "Content-Type", cstr "gnss/data") ∉
      [(cstr "Cache-Control", cstr "no-store, no-cache, max-age=0"),
        (cstr "Pragma", cstr "no-cache")] := by
    decide
  cases m <;> exact hnot

theorem quietly_deferredOutput {contentCb : ContentCb} {req : Request}
    (h : deferredOutput c s contentCb req = .ok s') : Quietly s s' := by
  obtain ⟨-, w, rfl⟩ | ⟨-, -, -, w, rfl⟩ | ⟨-, answer, -, rfl⟩ := deferredOutput_cases h
  · exact quietly_of_eq rfl rfl
  · exact quietly_of_eq rfl rfl
  · have hw : Quietly s { s with w := answer.w } := quietly_of_eq rfl rfl
    exact (hw.trans (quietly_sendServerReply _ _ _ _ _ (.inr List.not_mem_nil))).trans
      (quietly_setState _ _)

/-- What a handler leaves, if it starts no stream. -/
def QuietHandled (s : Server W G) (h : Handled W G) : Prop := Quietly s h.s ∧ h.err ≠ 200

theorem Plan.run_quietly (plan : Plan) :
    okAll (fun _ => True) (QuietHandled s) (plan.run c s) := by
  have hplain := quietly_forceHttp s
  cases plan with
  | fail plain err headers herr =>
    rw [Plan.run, okAll_ok]
    refine ⟨?_, fun h : err = 200 => absurd herr (by omega)⟩
    dsimp only
    split
    · exact hplain
    · exact .refl s
  | page m =>
    refine ⟨(hplain.trans (quietly_sendResultOk _ _ ?_)).trans (quietly_setState _ _), by simp⟩
    exact Nat.zero_ne_one
  | noMemory => exact ⟨hplain.trans (quietly_record _ rfl (by decide)), by simp⟩
  | call contentCb req =>
    rw [Plan.run, okAll_map, appendContent]
    split
    · exact ⟨hplain.trans (quietly_of_eq rfl rfl), by simp⟩
    · cases hcall : deferredOutput c s.forceHttp contentCb req with
      | error f => trivial
      | ok s' => exact ⟨hplain.trans (quietly_deferredOutput hcall), by simp⟩
  | sync req =>
    rw [Plan.run, okAll_map]
    cases hcall : deferredOutput c s.forceHttp .sync req with
    | error f => trivial
    | ok s' => exact ⟨hplain.trans (quietly_deferredOutput hcall), by simp⟩

theorem admsrv_quietly (c : Caster W G) (config : Config) (s : Server W G)
    (method rootUri uri : CString) :
    okAll (fun _ => True) (QuietHandled s) (admsrv c config s method rootUri uri) := by
  obtain ⟨plan, hrun⟩ := exists_admsrv_eq_run c config s method rootUri uri
  rw [hrun]
  exact plan.run_quietly

/-- Some work that started no stream, with the error. -/
def QuietEnd (s s' : Server W G) (err : ℕ) : Prop := Quietly s s' ∧ err ≠ 200

theorem getSourcetable_quietly : (getSourcetable c s).Ends (QuietEnd s) := by
  rw [getSourcetable]
  dsimp only
  obtain ⟨hsend, herr⟩ := quietly_sendSourcetable c s
  split
  · exact ends_goOn.mpr ⟨hsend.trans (quietly_setState _ _), herr⟩
  · exact ⟨hsend.trans (quietly_setState _ _), herr⟩

theorem sourceRequest_quietly {mountpoint password : CString} {user : Option CString} :
    (sourceRequest c config s mountpoint user password).Ends (QuietEnd s) := by
  have hset : Quietly s { s with
      st := { s.st with mountpoint := some mountpoint }
      w := (c.livesourceConnected s.w mountpoint).2 } := quietly_of_eq rfl rfl
  rw [sourceRequest]
  dsimp only
  split
  · exact ⟨.refl s, by simp⟩
  · split
    · exact ⟨.refl s, by simp⟩
    · split
      · exact ⟨.refl s, by simp⟩
      · split
        · exact ⟨hset, by simp⟩
        · split
          · exact ⟨hset, by simp⟩
          · have hconnected := quietly_record { s with
                st := { s.st with mountpoint := some mountpoint }
                w := (c.livesourceConnected s.w mountpoint).2 }
              (show (Event.connected mountpoint).request? = none from rfl) rfl
            refine ⟨(hset.trans hconnected).trans ?_, by simp⟩
            split
            · exact (quietly_record _ rfl (by decide)).trans (quietly_setState _ _)
            · next hversion =>
              exact (quietly_sendResultOk _ none hversion).trans (quietly_setState _ _)

theorem postRequest_quietly {uri : CString} :
    (postRequest c config s uri).Ends (QuietEnd s) := by
  rw [postRequest]
  split
  · split
    · have hadm := admsrv_quietly c config s (cstr "POST") (cstr "/adm") (uri.drop 4)
      split
      · trivial
      · next h hok =>
        rw [hok] at hadm
        exact ends_goOn.mpr ⟨hadm.1.trans (quietly_setState _ _), hadm.2⟩
    · exact ⟨quietly_setState _ _, by simp⟩
  · split
    · exact ⟨.refl s, by simp⟩
    · have hset : Quietly s { s with st := { s.st with
          connectionKeepalive := false, clientVersion := 2 } } := quietly_of_eq rfl rfl
      dsimp only
      split
      · exact ⟨hset, by simp⟩
      · split
        · exact sourceRequest_quietly.mono fun _ _ h => ⟨hset.trans h.1, h.2⟩
        · exact ⟨hset, by simp⟩

theorem oldSourceRequest_quietly {password mountpoint : CString} :
    (oldSourceRequest c config s password mountpoint).Ends (QuietEnd s) := by
  rw [oldSourceRequest]
  split
  · exact ⟨.refl s, by simp⟩
  · have hset : Quietly s { s with st := { s.st with
        connectionKeepalive := false, clientVersion := 1 } } := quietly_of_eq rfl rfl
    exact sourceRequest_quietly.mono fun _ _ h => ⟨hset.trans h.1, h.2⟩

theorem endContent_quietly : (endContent c config s).Ends (QuietEnd s) := by
  have hcontent : Quietly s (s.record (.content (s.st.content.getD []))) :=
    quietly_record s rfl rfl
  rw [endContent]
  split
  · next method uri _ _ =>
    split
    · have hadm := admsrv_quietly c config (s.record (.content (s.st.content.getD []))) method
        (cstr "/adm") (uri.drop 4)
      split
      · trivial
      · next h hok =>
        rw [hok] at hadm
        exact ends_goOn.mpr ⟨(hcontent.trans hadm.1).trans (quietly_setState _ _), hadm.2⟩
    · exact ⟨hcontent.trans (quietly_setState _ _), by simp⟩
  · exact ⟨hcontent.trans (quietly_setState _ _), by simp⟩

theorem replyError_quietly (s : Server W G) {l : Leave} (h : l.err ≠ 200) :
    Quietly s (replyError s l) := by
  rw [replyError]
  split
  · exact quietly_record s rfl (by decide)
  · split
    · exact quietly_record s rfl (by decide)
    · split
      · exact quietly_sendServerReply s _ _ _ _ (.inl h)
      · exact .refl s

theorem afterLoop_quietly (s : Server W G) {l : Leave} (h : l.err ≠ 200) :
    Quietly s (afterLoop s l) := by
  obtain ⟨-, -, heq⟩ | ⟨-, -, heq⟩ | ⟨-, heq⟩ := afterLoop_cases s l
  · rw [heq]
    exact .refl s
  · rw [heq]
    exact quietly_of_eq rfl rfl
  · rw [heq]
    exact (replyError_quietly s h).trans (quietly_setState _ _)

/-! ### Answers that start a stream -/

/-- What was recorded were no requests, and a session of a virtual source streams. -/
structure Granted (s s' : Server W G) (err : ℕ) : Prop where
  log : Logs Event.Answers s s'
  streaming : s'.st.sourceVirtual = true → Streaming s'.st
  err_ne : err ≠ 200

theorem QuietEnd.granted {err : ℕ} (h : QuietEnd s s' err) (hvirtual : s.st.sourceVirtual = false) :
    Granted s s' err := by
  refine ⟨h.1.log.mono fun e he => he.1, fun hv => ?_, h.2⟩
  rw [h.1.sourceVirtual, hvirtual] at hv
  contradiction

theorem Granted.after {err : ℕ} (h : Granted s' s'' err) (hlog : Logs Event.Answers s s') :
    Granted s s'' err :=
  ⟨hlog.trans h.log, h.streaming, h.err_ne⟩

theorem startStream_granted (s : Server W G) (mountpoint : CString) (virtual : Bool) :
    Granted s (startStream s mountpoint virtual) 0 := by
  set s₁ : Server W G := { s with st := { s.st with
    connectionKeepalive := false
    sourceVirtual := virtual
    mountpoint := some mountpoint } }
  have hsend : Logs Event.Answers s₁ (sendResultOk s₁ (some (cstr "gnss/data")) none) := by
    unfold sendResultOk
    split
    · exact logs_record s₁ rfl
    · exact logs_record s₁ rfl
  have hkeepalive : (sendResultOk s₁ (some (cstr "gnss/data")) none).st.connectionKeepalive =
      false := by
    rw [answered_sendResultOk s₁ (some (cstr "gnss/data")) none]
    unfold sendResultOk
    split <;> rfl
  have hlog : Logs Event.Answers s ((sendResultOk s₁ (some (cstr "gnss/data")) none).setState
      .waitClientInput) := hsend
  rw [startStream]
  dsimp only
  split
  · exact ⟨hlog.trans (logs_record _ rfl), fun _ => streaming_of_state hkeepalive (.inl rfl),
      by simp⟩
  · exact ⟨hlog, fun _ => streaming_of_state hkeepalive (.inl rfl), by simp⟩

theorem getMountpoint_granted {mountpoint : CString} (hvirtual : s.st.sourceVirtual = false) :
    (getMountpoint c s mountpoint).Ends (Granted s) := by
  rw [getMountpoint]
  dsimp only
  generalize (if (c.stackFindMountpoint s.w mountpoint).all (!·.virtual) = true then _
    else _ : Bool × W) = r
  have hsubscribe : Logs Event.Answers s (if r.1 = true then
      Server.record { s with w := r.2 } (.subscribe mountpoint) else { s with w := r.2 }) ∧
      (if r.1 = true then Server.record { s with w := r.2 } (.subscribe mountpoint)
        else { s with w := r.2 }).st.sourceVirtual = false := by
    split
    · exact ⟨logs_record { s with w := r.2 } rfl, hvirtual⟩
    · exact ⟨logs_of_eq rfl, hvirtual⟩
  generalize (if r.1 = true then _ else _ : Server W G) = s₁ at hsubscribe ⊢
  obtain ⟨hlog, hvirtual₁⟩ := hsubscribe
  split
  · split
    · exact (startStream_granted s₁ mountpoint false).after hlog
    · split
      · exact getSourcetable_quietly.mono fun _ _ h => (h.granted hvirtual₁).after hlog
      · exact ⟨hlog, fun hv => absurd hv (by simp [hvirtual₁]), by simp⟩
  · next sourceline _ =>
    split
    · exact (startStream_granted _ mountpoint sourceline.virtual).after hlog
    · next hnot =>
      obtain ⟨hnotVirtual, -⟩ := not_or.mp hnot
      rw [Bool.not_eq_true] at hnotVirtual
      split
      · obtain ⟨hsend, herr⟩ := quietly_sendSourcetable c { s₁ with st := { s₁.st with
          connectionKeepalive := false
          sourceVirtual := sourceline.virtual } }
        exact (QuietEnd.granted ⟨hsend.trans (quietly_setState _ _), herr⟩ hnotVirtual).after hlog
      · exact ⟨hlog, fun hv => absurd hv (by simp [hnotVirtual]), by simp⟩

/-! ### Credentials -/

/-- The user and the password of the session, if there are any, are those of a header. -/
def Presented (st : NtripState G) : Prop :=
  st.user = none ∨ ∃ header ∈ st.headers, header.kind = .authorization ∧
    ∃ credentials, httpDecodeAuth header.value = some credentials ∧
      st.user = some credentials.user ∧ st.password = some credentials.password

/-- The check of `ntripsrv_readcb`, with the credentials of the request. -/
theorem Presented.mayStream (h : Presented s.st) (httpArgs : List CString)
    (hcheck : ¬ (config.roverAuthFilename.isSome ∧
      checkRoverPassword config.roverAuth s.st.user s.st.password = false ∧
      roverAuthExemptPeer s.st.peer.remoteAddr = false)) :
    Dispatched.MayStream ⟨httpArgs, s.st.headers, s.st.peer.remoteAddr, config⟩ := by
  intro hfile hpeer
  have hpassword : checkRoverPassword config.roverAuth s.st.user s.st.password = true := by
    by_contra hfalse
    exact hcheck ⟨hfile, Bool.eq_false_iff.mpr hfalse, hpeer⟩
  obtain ⟨auth, e, hauth, he, henabled, huser, hpass⟩ :=
    exists_entry_of_checkRoverPassword hpassword
  rcases h with hnone | ⟨header, hmem, hkind, credentials, hdecode, huser', hpass'⟩
  · rw [hnone] at huser
    contradiction
  · refine ⟨header, hmem, hkind, credentials, hdecode, auth, e, hauth, he, henabled, ?_, ?_⟩
    · exact Option.some.inj (huser.symm.trans huser')
    · exact Option.some.inj (hpass.symm.trans hpass')

theorem Presented.congr {st st' : NtripState G} (h : Presented st) (huser : st'.user = st.user)
    (hpassword : st'.password = st.password) (hheaders : st'.headers = st.headers) :
    Presented st' := by
  rw [Presented, huser, hpassword, hheaders]
  exact h

/-- A header that gives no credentials leaves those of the session alone. -/
theorem setHeader_credentials (st : NtripState G) (value : CString) {kind : HeaderKind}
    (hkind : kind ≠ .authorization) :
    (setHeader c config st value kind).1.user = st.user ∧
      (setHeader c config st value kind).1.password = st.password := by
  cases kind with
  | transferEncoding => rw [setHeader]; split <;> exact ⟨rfl, rfl⟩
  | connection => rw [setHeader]; split <;> exact ⟨rfl, rfl⟩
  | contentLength =>
    rw [setHeader]
    split
    · split <;> exact ⟨rfl, rfl⟩
    · exact ⟨rfl, rfl⟩
  | contentType => exact ⟨rfl, rfl⟩
  | ntripVersion => rw [setHeader]; split <;> exact ⟨rfl, rfl⟩
  | agent => rw [setHeader]; split <;> exact ⟨rfl, rfl⟩
  | authorization => contradiction
  | ntripGga => rw [setHeader]; split <;> exact ⟨rfl, rfl⟩
  | host => exact ⟨rfl, rfl⟩
  | forwarded => exact ⟨rfl, rfl⟩
  | other => exact ⟨rfl, rfl⟩

/-- The errors of headers. -/
theorem setHeader_err (c : Caster W G) (config : Config) (st : NtripState G) (value : CString)
    (kind : HeaderKind) : (setHeader c config st value kind).2 ≠ 200 := by
  cases kind with
  | contentLength =>
    rw [setHeader]
    split
    · split <;> simp
    · simp
  | agent => rw [setHeader]; split <;> simp
  | authorization => rw [setHeader]; split <;> simp
  | ntripGga => rw [setHeader]; split <;> simp
  | transferEncoding => simp [setHeader]
  | connection => simp [setHeader]
  | contentType => simp [setHeader]
  | ntripVersion => simp [setHeader]
  | host => simp [setHeader]
  | forwarded => simp [setHeader]
  | other => simp [setHeader]

/-- A header is added. -/
theorem Presented.addHeader (h : Presented s.st) (key value : CString) :
    Presented (s.addHeader config key value).st := by
  rcases h with hnone | ⟨header, hmem, hheader⟩
  · exact .inl hnone
  · exact .inr ⟨header, List.mem_append_left _ hmem, hheader⟩

/-- The credentials of a header are the ones it gives. -/
theorem Presented.setHeader {key value : CString} {kind : HeaderKind} {headers : List Header}
    {st : NtripState G} (h : Presented st)
    (hheaders : st.headers = headers ++ [⟨kind, key, value⟩]) :
    Presented (setHeader c config st value kind).1 := by
  by_cases hkind : kind = .authorization
  · subst hkind
    rw [Ntripsrv.setHeader]
    split
    · next credentials hdecode =>
      refine .inr ⟨⟨.authorization, key, value⟩, ?_, rfl, credentials, hdecode, rfl, rfl⟩
      rw [hheaders]
      exact List.mem_append_right _ (List.mem_singleton.mpr rfl)
    · exact h
  · obtain ⟨huser, hpassword⟩ := setHeader_credentials (c := c) st value hkind
    exact h.congr huser hpassword (setHeader_set c config st value kind).headers

/-! ### Rounds -/

/-- The log is safe, the credentials are those of the request, and a session of a virtual source
streams, after a request that may stream. The source of a session is virtual if it was. -/
structure RoverInv (virtual : Prop) (s : Server W G) : Prop where
  safe : RoverSafe s.log
  presented : Presented s.st
  virtual : virtual → s.st.sourceVirtual = true
  streaming : s.st.sourceVirtual = true → Opened s.log ∧ Streaming s.st

variable {virtual : Prop}

theorem RoverInv.quietly (h : RoverInv virtual s) (hs' : Quietly s s')
    (hpresented : Presented s'.st)
    (hstreaming : s'.st.sourceVirtual = true → Streaming s'.st) : RoverInv virtual s' := by
  obtain ⟨⟨events, hlog, hquiet⟩, hvirtual⟩ := hs'
  have hsafe := h.safe.append (fun e he => (hquiet e he).1)
    (fun e he hrover => absurd hrover (by rw [(hquiet e he).2]; decide))
  rw [← hlog] at hsafe
  refine ⟨hsafe.1, hpresented, fun hv => hvirtual.trans (h.virtual hv),
    fun hv => ⟨?_, hstreaming hv⟩⟩
  rw [hvirtual] at hv
  obtain ⟨r, hr, hmay⟩ := (h.streaming hv).1
  exact ⟨r, hsafe.2.trans hr, hmay⟩

/-- A request is recorded and answered. -/
theorem dispatch_rover {httpArgs : List CString} (hsafe : RoverSafe s.log)
    (hlast : lastRequest s.log =
      some ⟨httpArgs, s.st.headers, s.st.peer.remoteAddr, config⟩)
    (hpresented : Presented s.st) (hvirtual : s.st.sourceVirtual = false) :
    (dispatch c config s).Ends fun s' err =>
      RoverSafe s'.log ∧ (s'.st.sourceVirtual = true → Opened s'.log ∧ Streaming s'.st) ∧
        err ≠ 200 := by
  have hquiet {s'} {err : ℕ} (h : QuietEnd s s' err) : RoverSafe s'.log ∧
      (s'.st.sourceVirtual = true → Opened s'.log ∧ Streaming s'.st) ∧ err ≠ 200 := by
    obtain ⟨events, hlog, hevents⟩ := h.1.log
    have happend := hsafe.append (fun e he => (hevents e he).1)
      (fun e he hrover => absurd hrover (by rw [(hevents e he).2]; decide))
    refine ⟨hlog ▸ happend.1, fun hv => ?_, h.2⟩
    rw [h.1.sourceVirtual, hvirtual] at hv
    contradiction
  have hrefl : QuietEnd s s 400 := ⟨.refl s, by decide⟩
  rw [dispatch]
  split
  · next uri _ _ =>
    split
    · rw [getRequest]
      split
      · exact hquiet hrefl
      · split
        · have hadm := admsrv_quietly c config s (cstr "GET") (cstr "/adm") (uri.drop 4)
          split
          · trivial
          · next hok =>
            rw [hok] at hadm
            exact hquiet hadm
        · split
          · next hfile =>
            obtain ⟨plan, hrun⟩ := exists_run_eq_filesrv c config s hfile
            have hquietly : okAll (fun _ => True) (QuietHandled s) (plan.run c s) :=
              plan.run_quietly
            rw [hrun] at hquietly
            exact hquiet hquietly
          · dsimp only
            split
            · exact getSourcetable_quietly.mono fun _ _ => hquiet
            · split
              · exact hquiet ⟨.refl s, by decide⟩
              · next hcheck =>
                have hmay := hpresented.mayStream httpArgs hcheck
                have hopened : Opened s.log := ⟨_, hlast, hmay⟩
                refine (getMountpoint_granted hvirtual).mono fun s' err h => ?_
                obtain ⟨events, hlog, hevents⟩ := h.log
                have happend := hsafe.append hevents fun _ _ _ => hopened
                rw [← hlog] at happend
                exact ⟨happend.1, fun hv => ⟨⟨_, happend.2.trans hlast, hmay⟩, h.streaming hv⟩,
                  h.err_ne⟩
    · split
      · exact postRequest_quietly.mono fun _ _ => hquiet
      · split
        · exact oldSourceRequest_quietly.mono fun _ _ => hquiet
        · exact hquiet ⟨.refl s, by decide⟩
  · exact hquiet ⟨.refl s, by decide⟩

theorem prepare_log : okAll (fun _ => True) (fun s' => s'.log = s.log ++
      [Event.request s'.st.httpArgs s'.st.headers s'.st.peer.remoteAddr config] ∧
    s'.st.sourceVirtual = s.st.sourceVirtual) (prepare config s) := by
  rw [prepare]
  dsimp only
  split
  · trivial
  · refine ⟨rfl, ?_⟩
    rw [Server.record]
    unfold cutQuery
    split
    · split <;> rfl
    · rfl

/-- A session that reads requests has no virtual source. -/
theorem RoverInv.not_virtual (h : RoverInv virtual s)
    (hstate : s.st.state = .waitHttpMethod ∨ s.st.state = .waitHttpHeader ∨
      s.st.state = .waitClientContent) : s.st.sourceVirtual = false := by
  by_contra hv
  have hstreaming := (h.streaming (Bool.not_eq_false _ ▸ hv)).2
  rcases hstate with hstate | hstate | hstate
  · exact hstreaming.notMethod hstate
  · exact hstreaming.notHeader hstate
  · exact hstreaming.notContent hstate

/-- Nothing is recorded. -/
theorem RoverInv.silent (h : RoverInv virtual s) (hlog : s'.log = s.log)
    (hsame : s'.st.sourceVirtual = s.st.sourceVirtual) (hpresented : Presented s'.st)
    (hvirtual : s.st.sourceVirtual = false) : RoverInv virtual s' := by
  refine h.quietly (quietly_of_eq hlog hsame) hpresented fun hv => ?_
  rw [hsame, hvirtual] at hv
  contradiction

/-- The end of the headers. -/
theorem RoverInv.endHeaders (h : RoverInv virtual s) (hvirtual : s.st.sourceVirtual = false) :
    (endHeaders c config s).Ends fun s' err => RoverInv virtual s' ∧ err ≠ 200 := by
  have hlog : okAll _ _ (prepare config s) := prepare_log
  have hworked : okAll _ (Worked s) (prepare config s) := prepare_worked
  rw [Ntripsrv.endHeaders]
  split
  · trivial
  · next s₁ hok =>
    rw [hok] at hlog hworked
    obtain ⟨hlog, hsame⟩ := hlog
    have hpresented : Presented s₁.st :=
      h.presented.congr (by rw [hworked]) (by rw [hworked]) (by rw [hworked])
    have hsafe : RoverSafe s₁.log := by
      rw [hlog]
      exact h.safe.append_singleton fun hrover => by contradiction
    have hlast : lastRequest s₁.log = some ⟨s₁.st.httpArgs, s₁.st.headers,
        s₁.st.peer.remoteAddr, config⟩ := by
      rw [hlog, lastRequest_append_singleton]
      rfl
    have hdispatch := dispatch_rover (c := c) hsafe hlast hpresented (hsame.trans hvirtual)
    have hanswered : (dispatch c config s₁).All _ (Answered s₁) := dispatch_answered
    have hnot : ¬ virtual := fun hv => absurd (h.virtual hv) (by rw [hvirtual]; decide)
    refine hdispatch.and_all hanswered fun s' err hs' hs₁ => ?_
    obtain ⟨hsafe', hstreaming, herr⟩ := hs'
    exact ⟨⟨hsafe', hpresented.congr (by rw [hs₁]) (by rw [hs₁]) (by rw [hs₁]),
      fun hv => absurd hv hnot, hstreaming⟩, herr⟩

/-- A header line. -/
theorem RoverInv.handleHeader (h : RoverInv virtual s) (hvirtual : s.st.sourceVirtual = false)
    (key value : CString) :
    okAll (fun _ => True) (fun r => RoverInv virtual r.1 ∧ r.2 ≠ 200)
      (handleHeader c config (s.addHeader config key value) key value) := by
  have hadd : Presented (s.addHeader config key value).st := h.presented.addHeader key value
  rw [Ntripsrv.handleHeader]
  dsimp only
  split
  · rw [handleForwardedHeader]
    split
    · exact ⟨h.silent rfl rfl hadd hvirtual, by simp⟩
    · split
      · exact ⟨h.silent rfl rfl hadd hvirtual, by simp⟩
      · split
        · trivial
        · refine ⟨h.silent rfl rfl (hadd.congr rfl rfl rfl) hvirtual, ?_⟩
          dsimp only
          split <;> simp
  · have hset := setHeader_set c config (s.addHeader config key value).st value
      (headerKind config key)
    refine ⟨h.silent rfl hset.sourceVirtual (hadd.setHeader rfl) hvirtual, ?_⟩
    exact setHeader_err c config _ value (headerKind config key)

/-- Some input is taken off, and the session stays as it is or closes. -/
theorem RoverInv.took (h : RoverInv virtual s) (hs' : Took s s') : RoverInv virtual s' := by
  refine h.quietly (quietly_of_eq (by rw [hs']) (by rw [hs']))
    (h.presented.congr (by rw [hs']) (by rw [hs']) (by rw [hs'])) fun hv => ?_
  rw [hs'] at hv
  exact (h.streaming hv).2.took hs'

theorem RoverInv.close (h : RoverInv virtual s) : RoverInv virtual (s.setState .forceClose) :=
  h.quietly (quietly_setState s _) (h.presented.congr rfl rfl rfl) fun hv =>
    (h.streaming hv).2.close

/-- A request line. -/
theorem RoverInv.methodLine (h : RoverInv virtual s) (hvirtual : s.st.sourceVirtual = false)
    (line : List Byte) :
    (methodLine s line).Ends fun s' err => RoverInv virtual s' ∧ err ≠ 200 := by
  rw [Ntripsrv.methodLine]
  dsimp only
  split
  · exact ⟨h.silent rfl rfl (h.presented.congr rfl rfl rfl) hvirtual, by simp⟩
  · exact ⟨h.silent rfl rfl (h.presented.congr rfl rfl rfl) hvirtual, by simp⟩

/-- A header line, or the empty line. -/
theorem RoverInv.headerLine (h : RoverInv virtual s) (hvirtual : s.st.sourceVirtual = false)
    (line : List Byte) :
    (headerLine c config s line).Ends fun s' err => RoverInv virtual s' ∧ err ≠ 200 := by
  rw [Ntripsrv.headerLine]
  split
  · exact h.endHeaders hvirtual
  · split
    · exact ⟨h, by simp⟩
    · next key value _ =>
      have hheader : okAll _ _ (Ntripsrv.handleHeader c config (s.addHeader config key value) key
        value) := h.handleHeader hvirtual key value
      split
      · trivial
      · next hok =>
        rw [hok] at hheader
        exact ends_goOn.mpr hheader

/-- The end of a content. -/
theorem RoverInv.endContent (h : RoverInv virtual s) (hvirtual : s.st.sourceVirtual = false) :
    (endContent c config s).Ends fun s' err => RoverInv virtual s' ∧ err ≠ 200 := by
  have hquietly : (Ntripsrv.endContent c config s).Ends (QuietEnd s) := endContent_quietly
  have hanswered : (Ntripsrv.endContent c config s).All _ (Answered s) := endContent_answered
  refine hquietly.and_all hanswered fun s' err hquiet hs' => ⟨h.quietly hquiet.1 ?_ ?_, hquiet.2⟩
  · exact h.presented.congr (by rw [hs']) (by rw [hs']) (by rw [hs'])
  · intro hv
    rw [hquiet.1.sourceVirtual, hvirtual] at hv
    contradiction

/-- **One round.** -/
theorem RoverInv.round (h : RoverInv virtual s) :
    (round c config s).Ends fun s' err => RoverInv virtual s' ∧ err ≠ 200 := by
  rw [Ntripsrv.round]
  split
  · exact ⟨h, by simp⟩
  · split
    · trivial
    · next buf _ =>
      split
      · exact ⟨h, by simp⟩
      · split
        · next hstate =>
          have hvirtual := h.not_virtual (.inl hstate)
          have hclear : RoverInv virtual s.clearRequest := h.silent rfl rfl (.inl rfl) hvirtual
          refine readLine_ends (fun err herr => ⟨hclear, by omega⟩)
            (fun line rest => ⟨hclear.took (took_takeLine _ line rest), by simp⟩)
            fun _ line rest _ _ => ?_
          have htook := took_takeLine s.clearRequest line rest
          exact (hclear.took htook).methodLine (by rw [htook]; exact hvirtual) line
        · next hstate =>
          have hvirtual := h.not_virtual (.inr (.inl hstate))
          refine readLine_ends (fun err herr => ⟨h, by omega⟩)
            (fun line rest => ⟨h.took (took_takeLine _ line rest), by simp⟩)
            fun _ line rest _ _ => ?_
          have htook := took_takeLine s line rest
          exact (h.took htook).headerLine (by rw [htook]; exact hvirtual) line
        · rw [clientInput]
          split
          · exact ⟨h, by simp⟩
          · next line rest _ =>
            have htook := h.took (took_takeLine s line rest)
            dsimp only
            split
            · refine ⟨htook.quietly ⟨⟨[.redoVirtualPos], rfl, fun e he => ?_⟩, rfl⟩
                (htook.presented.congr rfl rfl rfl) fun hv => ?_, by simp⟩
              · rw [List.mem_singleton.mp he]
                exact ⟨rfl, rfl⟩
              · exact (htook.streaming hv).2.congr rfl (.inl rfl)
            · exact ⟨htook, by simp⟩
        · next hstate =>
          have hvirtual := h.not_virtual (.inr (.inr hstate))
          rw [clientContent]
          split
          · exact ⟨h, by simp⟩
          · have htook : Took s (takeContent s buf
                (min buf.length (s.st.contentLength - (s.st.content.getD []).length))) :=
              took_takeContent s _ _
            dsimp only
            generalize takeContent s buf _ = s₁ at htook ⊢
            split
            · exact (h.took htook).endContent (by rw [htook]; exact hvirtual)
            · exact ⟨h.took htook, by simp⟩
        · rw [streamSource]
          split
          · exact ⟨h.close, by simp⟩
          · split
            · trivial
            · exact ⟨h.took (took_setInput s _ _), by simp⟩
        · exact ⟨h, by simp⟩
        · exact ⟨h.close, by simp⟩

/-! ### Steps -/

theorem RoverInv.afterLoop (h : RoverInv virtual s) {l : Leave} (hl : l.err ≠ 200) :
    RoverInv virtual (afterLoop s l) := by
  have hworked := afterLoop_worked s l
  refine h.quietly (afterLoop_quietly s hl)
    (h.presented.congr (by rw [hworked]) (by rw [hworked]) (by rw [hworked])) fun hv => ?_
  rw [(afterLoop_quietly s hl).sourceVirtual] at hv
  exact (h.streaming hv).2.afterLoop l

theorem filterInput_quietly : okAll (fun _ => True) (fun r => Quietly s r.1) (filterInput s) := by
  rw [Ntripsrv.filterInput]
  split
  · trivial
  · exact quietly_of_eq rfl rfl

theorem RoverInv.receive (h : RoverInv virtual s) (bytes : List Byte) :
    RoverInv virtual (s.receive bytes) :=
  h.quietly (quietly_of_eq rfl rfl) (h.presented.congr rfl rfl rfl) fun hv =>
    (h.streaming hv).2.congr rfl (.inl rfl)

/-- The input filter. -/
theorem RoverInv.filterInput (h : RoverInv virtual s) :
    okAll (fun _ => True) (fun r => RoverInv virtual r.1) (filterInput s) := by
  have hworked : okAll _ (fun r => Worked s r.1) (Ntripsrv.filterInput s) := filterInput_worked
  have hstreaming (hv : s.st.sourceVirtual = true) :
      okAll _ (fun r => Streaming r.1.st) (Ntripsrv.filterInput s) := (h.streaming hv).2.filterInput
  have hquietly : okAll _ (fun r => Quietly s r.1) (Ntripsrv.filterInput s) :=
    filterInput_quietly
  cases hfilter : Ntripsrv.filterInput s with
  | error f => trivial
  | ok r =>
    rw [hfilter] at hworked hstreaming hquietly
    refine h.quietly hquietly (h.presented.congr (by rw [hworked]) (by rw [hworked])
      (by rw [hworked])) fun hv => hstreaming (hquietly.sourceVirtual ▸ hv)

/-- **One step of the connection.** -/
theorem RoverInv.step (h : RoverInv virtual s) {l : Label W} :
    okAll (fun _ => True) (RoverInv virtual) (s.step c l) := by
  have hend : RoverInv virtual (decrefEnd s) :=
    h.quietly (quietly_of_eq rfl rfl) (h.presented.congr rfl rfl rfl) fun hv =>
      (h.streaming hv).2.decrefEnd
  cases l with
  | read config bytes =>
    rw [Server.step]
    split
    · exact h
    · exact ntripsrvReadcb_parts (RoverInv virtual) ((h.receive bytes).filterInput.mono fun r hr =>
        ⟨fun _ => hr, fun _ => hr⟩) (fun s hs _ => hs.round.parts fun _ h => h.1)
        (fun _ _ => trivial) (fun s l hs => hs.1.afterLoop hs.2)
        fun s hs _ => hs.close.afterLoop (by decide)
  | job i =>
    rw [Server.step]
    split
    · exact h
    · next job hjob =>
      cases hcall : deferredOutput c { s with jobs := s.jobs.eraseIdx i } job.contentCb job.req with
      | error f => trivial
      | ok s' =>
        have hjobs : Worked s { s with jobs := s.jobs.eraseIdx i } := rfl
        have hworked := hjobs.trans (deferredOutput_worked hcall)
        have hquietly : Quietly s s' := ⟨(quietly_deferredOutput hcall).log,
          (quietly_deferredOutput hcall).sourceVirtual⟩
        refine h.quietly hquietly (h.presented.congr
          (by rw [hworked]) (by rw [hworked]) (by rw [hworked])) fun hv => ?_
        exact Streaming.deferredOutput (s := { s with jobs := s.jobs.eraseIdx i })
          (h.streaming (hquietly.sourceVirtual ▸ hv)).2 hcall
  | written =>
    rw [Server.step, okAll_ok]
    split
    · exact hend
    · exact h
  | hangup => exact hend
  | caster w =>
    exact h.quietly (quietly_of_eq rfl rfl) (h.presented.congr rfl rfl rfl) fun hv =>
      (h.streaming hv).2.congr rfl (.inl rfl)

/-! ### Runs -/

/-- A connection, and the switches of its virtual source that are left to jobs. -/
structure Rover (W G : Type) where
  srv : Server W G
  switches : List CString

/-- What happens to a rover. -/
inductive RoverLabel (W : Type)
  | server (l : Label W)
  /-- `ntripsrv_redo_virtual_pos`, which finds that a source is nearer -/
  | redoVirtualPos (mountpoint : CString)
  /-- the job of `redistribute_switch_source` -/
  | switchSource (i : ℕ)

namespace Rover

/-- A connection that has just been accepted. -/
def accepted (peer : Peer) (w : W) (ipcount : HashTable ℤ) : Rover W G :=
  ⟨.accepted peer w ipcount, []⟩

/-- One step. The position of a rover is followed at any time, as long as it is known and the source
is virtual. -/
def step (c : Caster W G) (r : Rover W G) : RoverLabel W → Option (Rover W G)
  | .server l => (r.srv.stepOk c l).map fun srv => { r with srv := srv }
  | .redoVirtualPos mountpoint =>
    if r.srv.st.lastPos.isSome ∧ r.srv.st.sourceVirtual then
      some { r with switches := r.switches ++ [mountpoint] }
    else some r
  | .switchSource i =>
    match r.switches[i]? with
    | none => some r
    | some mountpoint =>
      some ⟨r.srv.record (.subscribe mountpoint), r.switches.eraseIdx i⟩

/-- The invariant: only a session of a virtual source has switches. -/
def Inv (r : Rover W G) : Prop := RoverInv (r.switches ≠ []) r.srv

variable {r r' : Rover W G}

/-- **One step.** -/
theorem Inv.step (h : r.Inv) {l : RoverLabel W} (hstep : r.step c l = some r') : r'.Inv := by
  cases l with
  | server l =>
    obtain ⟨srv, hsrv, rfl⟩ := Option.map_eq_some_iff.mp hstep
    have hok : okAll _ _ (r.srv.step c l) := RoverInv.step h
    rw [Server.stepOk] at hsrv
    cases hcall : r.srv.step c l with
    | error f =>
      rw [hcall] at hsrv
      contradiction
    | ok s' =>
      rw [hcall] at hok hsrv
      obtain rfl := Option.some.inj hsrv
      exact hok
  | redoVirtualPos mountpoint =>
    rw [Rover.step] at hstep
    split at hstep
    · next hvirtual =>
      obtain rfl := Option.some.inj hstep
      exact ⟨h.safe, h.presented, fun _ => hvirtual.2, h.streaming⟩
    · obtain rfl := Option.some.inj hstep
      exact h
  | switchSource i =>
    rw [Rover.step] at hstep
    split at hstep
    · obtain rfl := Option.some.inj hstep
      exact h
    · next mountpoint hget =>
      obtain rfl := Option.some.inj hstep
      have hvirtual : r.srv.st.sourceVirtual = true := h.virtual fun hnil => by
        rw [hnil] at hget
        contradiction
      have hopened := (h.streaming hvirtual).1
      have hsafe : RoverSafe (r.srv.log ++ [.subscribe mountpoint]) ∧ _ :=
        h.safe.append (fun e he => by rw [List.mem_singleton.mp he]; rfl) fun _ _ _ => hopened
      refine ⟨hsafe.1, h.presented, fun _ => hvirtual, fun _ => ⟨?_, (h.streaming hvirtual).2⟩⟩
      obtain ⟨req, hreq, hmay⟩ := hopened
      exact ⟨req, hsafe.2.trans hreq, hmay⟩

/-- **Rover streams require credentials.** Whenever a session is subscribed to a source or sent the
reply that starts a stream, the last request before carried the user and the password of an enabled
account, if the configuration in force asks for accounts and the request does not come from the
machine of the caster. This also holds between the rounds of a callback. -/
theorem reachable_roverSafe {peer : Peer} {w : W} {ipcount : HashTable ℤ}
    (h : Transition.Reachable (· = accepted peer w ipcount) (fun _ _ => True) (step c) r) :
    RoverSafe r.srv.log ∧ ∀ config bytes, ∀ s ∈ visited c config (r.srv.receive bytes),
      RoverSafe s.log := by
  have hinv : r.Inv := by
    refine h.invariant ?_ fun r l r' hr _ hstep => hr.step hstep
    rintro _ rfl
    exact ⟨roverSafe_nil, .inl rfl, fun h => absurd rfl h, fun h => by contradiction⟩
  refine ⟨hinv.safe, fun config bytes s hs => ?_⟩
  have hvisited : RoverInv (r.switches ≠ []) s := visited_all (fun _ => True)
    (RoverInv.receive hinv bytes).filterInput (fun s hs _ => hs.round.all fun _ _ h => h.1)
    (fun _ _ => trivial) s hs
  exact hvisited.safe

/-- The small caster with rover accounts, and one of them. -/
def roverConfig : Config :=
  { smallConfig with
    roverAuthFilename := some (cstr "rover.auth")
    roverAuth := some [⟨cstr "u", cstr "p", true⟩] }

/-- The small caster with a source for every mountpoint. -/
def roverCaster : Caster Unit Unit :=
  { smallCaster true with livesourceFindAndSubscribe := fun _ _ _ => (true, ()) }

/-- A client, when it is accepted. -/
def rover : Rover Unit Unit := .accepted smallPeer () (.new 509 HashTable.zero_lt_509)

/-- It asks for the table of sources, and then for a source. -/
def roverRequest : List (RoverLabel Unit) :=
  [.server (.read roverConfig (cstr "GET / HTTP/1.1\r\nConnection: keep-alive\r\n\r\n")),
    .server (.read roverConfig (cstr "GET /M HTTP/1.1\r\nAuthorization: Basic dTpw\r\n\r\n"))]

theorem reachable_roverSafe_roverRequest : ∃ r : Rover Unit Unit,
    Transition.Reachable (· = rover) (fun _ _ => True) (step roverCaster) r ∧
      r.srv.log.any (·.isRover) = true ∧ RoverSafe r.srv.log := by
  have hobserve : (roverRequest.foldlM (fun (r : Rover Unit Unit) l =>
      if True then r.step roverCaster l else none) rover).map
      (fun r => r.srv.log.any (·.isRover)) = some true := by
    decide +kernel
  obtain ⟨r, hrun, hrover⟩ := Option.map_eq_some_iff.mp hobserve
  have hr : Transition.Reachable (· = rover) (fun _ _ => True) (step roverCaster) r :=
    Transition.reachable_of_foldlM (.refl rfl) hrun
  exact ⟨r, hr, hrover, (reachable_roverSafe hr).1⟩

end Rover

end Ntripsrv

end ChilopodCaster
