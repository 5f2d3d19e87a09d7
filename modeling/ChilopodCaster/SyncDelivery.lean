import ChilopodCaster.RequestRead

/-!
# Synchronisation messages between nodes

A syncer posts each of its messages to `/adm/api/v1/sync` of another node, in a request of its own
on a connection that is kept (`syncer.c`, `ntrip_task.c` and `ntripcli.c`). The node that receives
the stream of these requests, in whatever pieces, executes the messages that have arrived whole, in
order, each of them once, and answers each (`ntripsrv.c`, `adm.c` and `api.c`).

## Main definitions

* `syncRequest`, `syncText` — the request for a message
* `syncRun` — the messages executed one after the other, with the replies

## Main results

* `exists_serve_sync` — one message
* `sync_delivered` — a stream of them
-/

namespace ChilopodCaster

namespace Ntripsrv

open ChunkDecode Pieces

variable {W G : Type} {c : Caster W G} {config : Config} {s s' : Server W G}

/-! ### The requests of a syncer -/

/-- The path that messages are posted to. -/
def syncUri : CString := cstr "/adm/api/v1/sync"

/-- The request of `syncer_task_new` for a message. -/
def syncRequest (host : CString) (port : BitVec 16) (authorization : CString) (item : List Byte) :
    Ntripcli.HttpRequest where
  method := cstr "POST"
  host := host
  port := port
  uri := syncUri
  version := 2
  m := some ⟨item.length, cstr "application/json"⟩
  connectionKeepalive := true
  taskHeaders := [(cstr "Authorization", cstr "internal " ++ authorization)]

/-- What `ntrip_task_send_next_request` sends for a message. -/
def syncText (host : CString) (port : BitVec 16) (authorization : CString) (item : List Byte) :
    List Byte :=
  (Ntripcli.httpRequestStr (syncRequest host port authorization item)).getD [] ++ item

/-- The headers of the request. -/
def syncHeaders (host : CString) (port : BitVec 16) (authorization : CString) (item : List Byte) :
    Evkeyvalq :=
  [(cstr "Host", hostPortStr host port), (cstr "User-Agent", Ntripcli.clientUserAgent),
    (cstr "Content-Length", printNat 10 item.length),
    (cstr "Content-Type", cstr "application/json"), (cstr "Connection", cstr "keep-alive"),
    (cstr "Ntrip-Version", Ntripcli.clientNtripVersion),
    (cstr "Authorization", cstr "internal " ++ authorization)]

/-- The request, as the other node reads it. -/
def syncRequestText (host : CString) (port : BitVec 16) (authorization : CString)
    (item : List Byte) : RequestText :=
  ⟨cstr "POST", syncUri, cstr "HTTP/1.1", syncHeaders host port authorization item, item⟩

/-- What is needed of a syncer and of the node it talks to. -/
structure SyncPeers (config : Config) (host : CString) (port : BitVec 16)
    (authorization : CString) : Prop where
  isArg : IsArg host
  plain : ∀ c ∈ authorization, c ≠ 0 ∧ isspace c = false
  nonempty : authorization ≠ []
  token : config.syncerAuth = some authorization
  /-- the lines are shorter than the limit -/
  short : (hostPortStr host port).length + 64 < config.httpHeaderMaxSize ∧
    authorization.length + 64 < config.httpHeaderMaxSize
  len : config.httpContentLengthMax ≤ SIZE_MAX

/-- A message that the node can take. -/
structure SyncItem (c : Caster W G) (config : Config) (item : List Byte) : Prop where
  nonempty : item ≠ []
  len : item.length ≤ config.httpContentLengthMax ∧ item.length < 2 ^ 63
  json : c.jsonTokenerParse (toCString item) = true

variable {host authorization : CString} {port : BitVec 16} {item : List Byte}

theorem isArg_of_token {t : CString} (h : ∀ c ∈ t, c ≠ 0 ∧ isspace c = false) : IsArg t := by
  have hall : ∀ c : Byte, isspace c = false → c ≠ CR ∧ c ≠ LF ∧ isblank c = false := by decide
  exact fun c hc => ⟨(h c hc).1, hall c (h c hc).2⟩

theorem clean_authorization (h : SyncPeers config host port authorization) :
    Clean (cstr "internal " ++ authorization) := by
  have hscheme : IsArg (cstr "internal") := by decide
  have hspace : cstr "internal " = cstr "internal" ++ [32] := rfl
  have htoken := clean_of_isArg (isArg_of_token h.plain)
  refine ⟨fun c hc => ?_, fun c hc => ?_, fun c hc => ?_⟩
  · rw [hspace] at hc
    rcases List.mem_append.mp hc with hc | hc
    · rcases List.mem_append.mp hc with hc | hc
      · exact (clean_of_isArg hscheme).plain c hc
      · rw [List.mem_singleton.mp hc]
        decide
    · exact htoken.plain c hc
  · exact (clean_of_isArg hscheme).head c hc
  · rw [List.getLast?_append_of_ne_nil _ h.nonempty] at hc
    exact htoken.last c hc

theorem isArg_json : IsArg (cstr "application/json") := by decide

/-- **What the syncer writes** is a request that the node can read. -/
theorem syncText_eq (h : SyncPeers config host port authorization)
    (hitem : item.length < 2 ^ 63) :
    syncText host port authorization item =
      (syncRequestText host port authorization item).text := by
  have hown := @Ntripcli.HttpRequest.ownHeaders_eq (syncRequest host port authorization item) _
    rfl hitem rfl h.isArg isArg_json
  obtain ⟨head, hhead, htext⟩ := Ntripcli.httpRequestStr_eq hown item
  rw [syncText, hhead, Option.getD_some, ← htext]
  rfl

theorem wellFormed_syncRequestText (h : SyncPeers config host port authorization)
    (hitem : item.length < 2 ^ 63) :
    (syncRequestText host port authorization item).WellFormed config.httpHeaderMaxSize where
  method := show IsArg (cstr "POST") by decide
  uri := show IsArg syncUri by decide
  version := show IsArg (cstr "HTTP/1.1") by decide
  key := by
    have hkeys : ∀ key ∈ [cstr "Host", cstr "User-Agent", cstr "Content-Length",
        cstr "Content-Type", cstr "Connection", cstr "Ntrip-Version", cstr "Authorization"],
        (key.all fun c => decide (c ≠ 58 ∧ c ≠ 0 ∧ c ≠ CR ∧ c ≠ LF)) = true := by
      decide
    intro header hheader
    exact forall_of_all (hkeys header.1 (List.mem_map_of_mem hheader))
  value := by
    intro header hheader
    simp only [syncRequestText, syncHeaders, List.mem_cons, List.not_mem_nil, or_false] at hheader
    rcases hheader with rfl | rfl | rfl | rfl | rfl | rfl | rfl
    · exact clean_of_isArg (isArg_hostPortStr h.isArg port)
    · exact show Clean Ntripcli.clientUserAgent by decide
    · exact clean_of_isArg (isArg_of_isdigit isdigit_printNat)
    · exact clean_of_isArg isArg_json
    · exact show Clean (cstr "keep-alive") by decide
    · exact show Clean Ntripcli.clientNtripVersion by decide
    · exact clean_authorization h
  short := by
    have hlen : (printNat 10 item.length).length ≤ 19 :=
      (length_printNat_le (by decide)).mpr (by omega)
    have hheader (key value : CString) :
        (headerText (key, value)).length = key.length + 2 + value.length := by
      simp [headerText]
      omega
    have hkeys : (cstr "Host").length = 4 ∧ (cstr "User-Agent").length = 10 ∧
        (cstr "Content-Length").length = 14 ∧ (cstr "Content-Type").length = 12 ∧
        (cstr "Connection").length = 10 ∧ (cstr "Ntrip-Version").length = 13 ∧
        (cstr "Authorization").length = 13 := by decide
    have hvalues : Ntripcli.clientUserAgent.length = 27 ∧ (cstr "application/json").length = 16 ∧
        (cstr "keep-alive").length = 10 ∧ Ntripcli.clientNtripVersion.length = 9 ∧
        (cstr "internal ").length = 9 := by decide
    have hrequest : (cstr "POST" ++ [32] ++ syncUri ++ [32] ++ cstr "HTTP/1.1").length = 30 := by
      decide
    obtain ⟨hhost, htoken⟩ := h.short
    intro line hline
    simp only [RequestText.lines, syncRequestText, syncHeaders, List.map_cons, List.map_nil,
      List.mem_cons, List.not_mem_nil, or_false] at hline
    rcases hline with rfl | rfl | rfl | rfl | rfl | rfl | rfl | rfl
    · rw [RequestText.requestLine, hrequest]
      omega
    all_goals
      rw [hheader]
      first | rw [List.length_append] | skip
      omega

/-! ### The headers, as they are read -/

/-- A header has been read. -/
def Server.tookHeader (config : Config) (s : Server W G) (header : CString × CString) :
    Server W G :=
  (s.took (headerText header)).addHeader config header.1 header.2

/-- Fields of the session are set. -/
def Server.update (f : NtripState G → NtripState G) (s : Server W G) : Server W G :=
  { s with st := f s.st }

theorem serveHeader_eq {header : CString × CString} {kind : HeaderKind}
    {f : NtripState G → NtripState G}
    (hkind : headerKind config header.1 = kind ∧ kind ≠ .forwarded)
    (hset : ∀ st, setHeader c config st header.2 kind = (f st, 0))
    (hchunk : (f (s.tookHeader config header).st).chunkState = .chunkNone) :
    serveHeader c config s header = some ((s.tookHeader config header).update f) := by
  have hhandle : handleHeader c config (s.tookHeader config header) header.1 header.2 =
      .ok ((s.tookHeader config header).update f, 0) := by
    rw [handleHeader, hkind.1]
    dsimp only
    rw [if_neg hkind.2, hset]
    rfl
  rw [serveHeader, ← Server.tookHeader, hhandle]
  exact if_pos hchunk

theorem ite_eq_of {α : Type} {p : Prop} [Decidable p] {a x y k : α}
    (h : (if p then a else x) = k) (hxy : x = k → y = k) : (if p then a else y) = k := by
  by_cases hp : p
  · rwa [if_pos hp] at h ⊢
  · rw [if_neg hp] at h ⊢
    exact hxy h

/-- A name that is known whatever the configuration. -/
theorem headerKind_eq {key : CString} {kind : HeaderKind} (h : headerKind smallConfig key = kind)
    (hforwarded : kind ≠ .forwarded) (hother : kind ≠ .other) : headerKind config key = kind := by
  refine ite_eq_of h fun h => ite_eq_of h fun h => ite_eq_of h fun h => ite_eq_of h fun h =>
    ite_eq_of h fun h => ite_eq_of h fun h => ite_eq_of h fun h => ite_eq_of h fun h =>
    ite_eq_of h fun h => ?_
  split at h
  · exact absurd h.symm hforwarded
  · exact absurd h.symm hother

/-- The token of a syncer. -/
theorem httpDecodeAuth_internal {authorization : CString}
    (h : ∀ c ∈ authorization, c ≠ 0 ∧ isspace c = false) (hne : authorization ≠ []) :
    httpDecodeAuth (cstr "internal " ++ authorization) =
      some ⟨false, authorization, authorization⟩ := by
  have hscheme : (cstr "internal").all (fun c => decide (isspace c = false)) = true := by
    decide
  have hsplit : cstr "internal " ++ authorization = cstr "internal" ++ 32 :: authorization := rfl
  have hword : ∀ c ∈ cstr "internal", (!isspace c) = true := fun c hc => by
    rw [forall_of_all hscheme c hc]
    rfl
  have htoken : ∀ c ∈ authorization, (!isspace c) = true := fun c hc => by
    rw [(h c hc).2]
    rfl
  have hdrop : authorization.dropWhile isspace = authorization := by
    obtain ⟨c, t, rfl⟩ := List.exists_cons_of_ne_nil hne
    rw [List.dropWhile_cons, (h c List.mem_cons_self).2]
    rfl
  have hbasic : ¬ strcasecmp (cstr "internal") (cstr "Basic") = false := by decide
  have hinternal : strcasecmp (cstr "internal") (cstr "internal") = false := by decide
  have htake : (32 :: authorization).takeWhile (!isspace ·) = [] :=
    List.takeWhile_cons_of_neg (by decide)
  have hrest : (32 :: authorization).dropWhile (!isspace ·) = 32 :: authorization :=
    List.dropWhile_cons_of_neg (by decide)
  rw [httpDecodeAuth, hsplit, List.takeWhile_append_of_pos hword,
    List.dropWhile_append_of_pos hword, htake, hrest, List.append_nil]
  dsimp only
  rw [hdrop, if_neg hbasic, if_pos hinternal, if_neg hne, List.takeWhile_eq_self_iff.mpr htoken]

/-- What the session knows of the request. -/
structure SyncFields (authorization : CString) (item : List Byte) (st : NtripState G) : Prop where
  httpArgs : st.httpArgs = [cstr "POST", syncUri, cstr "HTTP/1.1"]
  contentLength : st.contentLength = item.length
  contentType : st.contentType = some (cstr "application/json")
  receivedKeepalive : st.receivedKeepalive = true
  clientVersion : st.clientVersion = 2
  schemeBasic : st.schemeBasic = false
  user : st.user = some authorization
  password : st.password = some authorization

/-- The headers have been read. -/
structure SyncHead (s : Server W G) (authorization : CString) (item : List Byte)
    (s' : Server W G) : Prop extends SyncFields authorization item s'.st where
  chunkState : s'.st.chunkState = .chunkNone
  connectionKeepalive : s'.st.connectionKeepalive = s.st.connectionKeepalive
  untouched : Untouched s s'

/-- **The headers** are read one after the other. -/
theorem exists_syncHead (h : SyncPeers config host port authorization)
    (hitem : SyncItem c config item) (s : Server W G) :
    ∃ s', (syncHeaders host port authorization item).foldlM (serveHeader c config)
        (s.begun (syncRequestText host port authorization item)) = some s' ∧
      SyncHead s authorization item s' := by
  have hkinds : headerKind smallConfig (cstr "Host") = .host ∧
      headerKind smallConfig (cstr "User-Agent") = .agent ∧
      headerKind smallConfig (cstr "Content-Length") = .contentLength ∧
      headerKind smallConfig (cstr "Content-Type") = .contentType ∧
      headerKind smallConfig (cstr "Connection") = .connection ∧
      headerKind smallConfig (cstr "Ntrip-Version") = .ntripVersion ∧
      headerKind smallConfig (cstr "Authorization") = .authorization := by decide
  obtain ⟨k1, k2, k3, k4, k5, k6, k7⟩ := hkinds
  have hagent : mystrcasestr Ntripcli.clientUserAgent (cstr "ntrip") = true := by decide
  have hkeep : (!strcasecmp (cstr "keep-alive") (cstr "keep-alive")) = true := by decide
  have hversion : (!strcasecmp Ntripcli.clientNtripVersion (cstr "ntrip/2.0")) = true := by
    decide
  have hlen : sscanfLu (printNat 10 item.length) = some item.length :=
    sscanfLu_printNat (hitem.len.1.trans h.len)
  have hshort : ¬ item.length > config.httpContentLengthMax := Nat.not_lt_of_le hitem.len.1
  have hauth := httpDecodeAuth_internal h.plain h.nonempty
  have set2 (st : NtripState G) : setHeader c config st Ntripcli.clientUserAgent .agent =
      ({ st with
        userAgentNtrip := true
        clientVersion := if st.clientVersion = 0 then 1 else st.clientVersion }, 0) := by
    rw [setHeader, if_pos hagent]
  have set3 (st : NtripState G) : setHeader c config st (printNat 10 item.length) .contentLength =
      ({ st with contentLength := item.length }, 0) := by
    rw [setHeader, hlen]
    exact if_neg hshort
  have set5 (st : NtripState G) : setHeader c config st (cstr "keep-alive") .connection =
      ({ st with receivedKeepalive := true }, 0) := by
    rw [setHeader, if_pos hkeep]
  have set6 (st : NtripState G) : setHeader c config st Ntripcli.clientNtripVersion .ntripVersion =
      ({ st with clientVersion := 2 }, 0) := by
    rw [setHeader, if_pos hversion]
  have set7 (st : NtripState G) : setHeader c config st (cstr "internal " ++ authorization)
      .authorization = ({ st with
        schemeBasic := false
        user := some authorization
        password := some authorization }, 0) := by
    rw [setHeader, hauth]
  have hknown {key : CString} {kind : HeaderKind} (h : headerKind smallConfig key = kind)
      (hne : kind ≠ .forwarded ∧ kind ≠ .other := by decide) :
      headerKind config key = kind ∧ kind ≠ .forwarded := ⟨headerKind_eq h hne.1 hne.2, hne.1⟩
  rw [syncHeaders]
  simp only [List.foldlM_cons, List.foldlM_nil, Option.bind_eq_bind]
  rw [serveHeader_eq (hknown k1) (fun _ => rfl) rfl, Option.bind_some,
    serveHeader_eq (hknown k2) set2 rfl, Option.bind_some,
    serveHeader_eq (hknown k3) set3 rfl, Option.bind_some,
    serveHeader_eq (hknown k4) (fun _ => rfl) rfl, Option.bind_some,
    serveHeader_eq (hknown k5) set5 rfl, Option.bind_some,
    serveHeader_eq (hknown k6) set6 rfl, Option.bind_some,
    serveHeader_eq (hknown k7) set7 rfl, Option.bind_some]
  refine ⟨_, rfl, ⟨rfl, rfl, rfl, rfl, rfl, rfl, rfl, rfl⟩, rfl, ?_, ?_, ?_, ?_⟩
  all_goals dsimp only [Server.update, Server.tookHeader, Server.addHeader, Server.took,
    Server.begun, Server.clearRequest, NtripState.clearRequest]

/-! ### The content -/

/-- The session is ready for the content of a request without a query string. -/
theorem prepared_of_plain {method uri version : CString}
    (hargs : s.st.httpArgs = [method, uri, version]) (huri : 63 ∉ uri) :
    prepared config s = { s with st := { s.st with
      content := if s.st.contentLength ≠ 0 then some [] else s.st.content
      connectionKeepalive := s.st.clientVersion ≠ 1 ∧ s.st.connectionKeepalive } }.record
        (.request s.st.httpArgs s.st.headers s.st.peer.remoteAddr config) := by
  have hcut (st : NtripState G) (hst : st.httpArgs = [method, uri, version]) :
      cutQuery st = st := by
    rw [cutQuery, hst]
    exact if_neg fun h => huri h.2
  exact congrArg (fun st => ({ s with st := st } : Server W G).record
    (.request st.httpArgs st.headers st.peer.remoteAddr config)) (hcut _ hargs)

/-- What a message comes to. -/
def syncAnswer (c : Caster W G) (authorization : CString) (w : W) (item : List Byte) : Answer W :=
  c.contentCb .sync w ⟨none, some (toCString item), some authorization, .roleNone⟩

/-- The reply to it. -/
def syncReply (answer : Answer W) : Reply :=
  .server (cstr "HTTP/1.1") answer.status (httpMessage answer.status) answer.m true []

/-- The messages are executed one after the other, with the replies. -/
def syncRun (c : Caster W G) (authorization : CString) (w : W) : List (List Byte) → W × List Reply
  | [] => (w, [])
  | item :: items =>
    let answer := syncAnswer c authorization w item
    let rest := syncRun c authorization answer.w items
    (rest.1, syncReply answer :: rest.2)

/-- The replies of a connection. -/
def Server.replies (s : Server W G) : List Reply :=
  s.log.filterMap fun
    | .reply r => some r
    | _ => none

/-- These messages have been executed and answered, and nothing else. -/
structure Synced (c : Caster W G) (authorization : CString) (s : Server W G)
    (items : List (List Byte)) (s' : Server W G) : Prop where
  w : s'.w = (syncRun c authorization s.w items).1
  replies : s'.replies = s.replies ++ (syncRun c authorization s.w items).2
  jobs : s'.jobs = s.jobs

theorem syncRun_append (w : W) (items items' : List (List Byte)) :
    syncRun c authorization w (items ++ items') =
      ((syncRun c authorization (syncRun c authorization w items).1 items').1,
        (syncRun c authorization w items).2 ++
          (syncRun c authorization (syncRun c authorization w items).1 items').2) := by
  induction items generalizing w with
  | nil => rfl
  | cons item items ih =>
    rw [List.cons_append, syncRun, ih]
    rfl

theorem Synced.append {s'' : Server W G} {items items' : List (List Byte)}
    (h : Synced c authorization s items s') (h' : Synced c authorization s' items' s'') :
    Synced c authorization s (items ++ items') s'' where
  w := by rw [syncRun_append, h'.w, h.w]
  replies := by rw [syncRun_append, h'.replies, h.replies, h.w, List.append_assoc]
  jobs := h'.jobs.trans h.jobs

/-- The content of the request is waited for. -/
structure SyncBody (s : Server W G) (authorization : CString) (item : List Byte)
    (s' : Server W G) : Prop extends SyncFields authorization item s'.st where
  state : s'.st.state = .waitClientContent
  connectionKeepalive : s'.st.connectionKeepalive = s.st.connectionKeepalive
  w : s'.w = s.w
  jobs : s'.jobs = s.jobs
  replies : s'.replies = s.replies

/-- **The empty line** leads to the content. -/
theorem SyncHead.endHeaders {s₁ : Server W G} (h : SyncHead s authorization item s₁)
    (hne : item ≠ []) :
    ∃ s₂, endHeaders c config (s₁.took []) = .inl s₂ ∧ SyncBody s authorization item s₂ := by
  have hchunk : (s₁.took []).st.chunkState ≠ .chunkInit := by
    rw [show (s₁.took []).st.chunkState = s₁.st.chunkState from rfl, h.chunkState]
    decide
  have hlen : (s₁.took []).st.contentLength ≠ 0 := by
    rw [show (s₁.took []).st.contentLength = s₁.st.contentLength from rfl, h.contentLength]
    exact fun h => hne (List.length_eq_zero_iff.mp h)
  have huri : 63 ∉ syncUri := by decide
  have hprepared : prepared config (s₁.took []) = _ :=
    prepared_of_plain (s := s₁.took []) h.httpArgs huri
  have hargs : (prepared config (s₁.took [])).st.httpArgs =
      [cstr "POST", syncUri, cstr "HTTP/1.1"] := by
    rw [hprepared]
    exact h.httpArgs
  have hdispatch : dispatch c config (prepared config (s₁.took [])) =
      .inl ((prepared config (s₁.took [])).setState .waitClientContent) := by
    rw [dispatch, hargs]
    dsimp only
    rw [if_neg (by decide), if_pos rfl, postRequest, if_pos (by decide), if_neg]
    rwa [prepared_contentLength]
  refine ⟨_, by rw [endHeaders_eq hchunk, hdispatch], ?_⟩
  rw [hprepared]
  refine ⟨⟨h.httpArgs, h.contentLength, h.contentType, h.receivedKeepalive, h.clientVersion,
    h.schemeBasic, h.user, h.password⟩, rfl, ?_, h.untouched.w, h.untouched.jobs, ?_⟩
  · have hversion : s₁.st.clientVersion ≠ 1 := by
      rw [h.clientVersion]
      decide
    show decide (s₁.st.clientVersion ≠ 1 ∧ s₁.st.connectionKeepalive = true) = _
    rw [h.connectionKeepalive]
    simp [hversion]
  · show List.filterMap _ (s₁.log ++ [_]) = _
    rw [List.filterMap_append, h.untouched.log]
    exact List.append_nil _

theorem replyAnswer_kept (hend : s.st.state ≠ .ntripEnd) (hversion : s.st.clientVersion = 0)
    (hkept : s.st.connectionKeepalive = true ∧ s.st.receivedKeepalive = true)
    (answer : Answer W) : replyAnswer s answer.status answer.m =
      (s.record (.reply (syncReply answer))).setState .waitHttpMethod := by
  have hone : ¬ (s.st.clientVersion = 1 ∧ s.st.userAgentNtrip = true) := by
    rw [hversion]
    exact fun h => absurd h.1 (by decide)
  have hreply : sendServerReply s answer.status [] none answer.m =
      s.record (.reply (syncReply answer)) := by
    rw [sendServerReply, if_neg hone, hkept.1, hkept.2]
    rfl
  rw [replyAnswer, if_pos hend, hreply]
  exact congrArg (Server.setState _) (if_pos hkept)

/-- The interface is called for the message. -/
theorem admsrv_sync {s₁ : Server W G} (hcontent : s₁.st.content = some item)
    (hstate : s₁.st.state ≠ .ntripEnd) (hkeep : s₁.st.connectionKeepalive = true)
    (h : SyncFields authorization item s₁.st) (hpeers : SyncPeers config host port authorization)
    (hitem : SyncItem c config item) :
    admsrv c config s₁ (cstr "POST") (cstr "/adm") (syncUri.drop 4) =
      .ok ⟨(Server.record { s₁.forceHttp with w := (syncAnswer c authorization s₁.w item).w }
        (.reply (syncReply (syncAnswer c authorization s₁.w item)))).setState .waitHttpMethod, 0,
        []⟩ := by
  have htype : ¬ (s₁.forceHttp.st.contentType.any fun t =>
      t ≠ cstr "application/x-www-form-urlencoded" ∧ t ≠ cstr "application/json") = true := by
    rw [show s₁.forceHttp.st.contentType = s₁.st.contentType from rfl, h.contentType]
    simp
  have hform : ¬ (s₁.forceHttp.st.contentType = none ∨
      s₁.forceHttp.st.contentType = some (cstr "application/x-www-form-urlencoded")) := by
    rw [show s₁.forceHttp.st.contentType = s₁.st.contentType from rfl, h.contentType]
    decide
  have htoken : ¬ (config.syncerAuth = none ∨ s₁.forceHttp.st.schemeBasic ∨
      config.syncerAuth ≠ s₁.forceHttp.st.password) := by
    rw [show s₁.forceHttp.st.schemeBasic = s₁.st.schemeBasic from rfl,
      show s₁.forceHttp.st.password = s₁.st.password from rfl, hpeers.token, h.schemeBasic,
      h.password]
    simp
  rw [admsrv, if_neg (by decide)]
  dsimp only
  rw [if_pos rfl, if_neg htype, if_neg hform,
    show s₁.forceHttp.st.content = some item from hcontent]
  dsimp only
  rw [admsrvJson, if_neg (by rw [hitem.json]; decide), if_pos (by decide), if_neg htoken,
    deferredOutput_eq, show s₁.forceHttp.st.user = s₁.st.user from rfl, h.user]
  dsimp only
  rw [if_neg fun h => ContentCb.noConfusion h.1]
  let answer := syncAnswer c authorization s₁.w item
  have hreply := @replyAnswer_kept W G { s₁.forceHttp with w := answer.w } hstate rfl
    ⟨hkeep, h.receivedKeepalive⟩ answer
  exact congrArg (fun s => (.ok ⟨s, 0, []⟩ : Except Fault (Handled W G))) hreply

theorem endContent_adm {method uri version : CString}
    (hargs : s.st.httpArgs = [method, uri, version]) (hadm : isAdm uri = true)
    {h : Handled W G} (hadmsrv : admsrv c config (s.record (.content (s.st.content.getD [])))
      method (cstr "/adm") (uri.drop 4) = .ok h) :
    endContent c config s = goOn { h with s := h.s.setState .waitHttpMethod } := by
  have hrecord : (s.record (.content (s.st.content.getD []))).st.httpArgs =
      [method, uri, version] := hargs
  rw [endContent, hrecord]
  dsimp only
  rw [if_pos hadm, hadmsrv]

theorem serveContent_eq {content : List Byte} (hne : content ≠ [])
    (hstate : s.st.state = .waitClientContent) (hlen : s.st.contentLength = content.length)
    (hend : endContent c config (s.tookContent content) = .inl s')
    (hnext : s'.st.state = .waitHttpMethod) : serveContent c config s content = some s' := by
  rw [serveContent, if_neg hne, if_pos ⟨hstate, hlen⟩, hend]
  exact if_pos hnext

/-- **The content** is executed and answered. -/
theorem SyncBody.exists_synced {s₁ : Server W G} (h : SyncBody s authorization item s₁)
    (hpeers : SyncPeers config host port authorization) (hitem : SyncItem c config item)
    (hkeep : s.st.connectionKeepalive = true) :
    ∃ s₂, serveContent c config s₁ item = some s₂ ∧ Synced c authorization s [item] s₂ ∧
      s₂.st.connectionKeepalive = true := by
  have hstate : s₁.st.state ≠ .ntripEnd := by
    rw [h.state]
    decide
  have hadmsrv := @admsrv_sync _ _ c config host authorization port item
    ((s₁.tookContent item).record (.content item)) rfl hstate (h.connectionKeepalive.trans hkeep)
    ⟨h.httpArgs, h.contentLength, h.contentType, h.receivedKeepalive, h.clientVersion,
      h.schemeBasic, h.user, h.password⟩ hpeers hitem
  have hend := endContent_adm (s := s₁.tookContent item) h.httpArgs (by decide) hadmsrv
  rw [goOn, if_pos rfl] at hend
  have hserve := serveContent_eq hitem.nonempty h.state h.contentLength hend rfl
  refine ⟨_, hserve, ⟨?_, ?_, h.jobs⟩, h.connectionKeepalive.trans hkeep⟩
  · rw [syncRun, syncRun, ← h.w]
    rfl
  · rw [syncRun, syncRun, ← h.w, ← h.replies]
    show List.filterMap _ (s₁.log ++ [_] ++ [_]) = _
    rw [List.filterMap_append, List.filterMap_append]
    exact congrArg (· ++ _) (List.append_nil _)

/-! ### Streams of messages -/

/-- **A message** that arrives whole. -/
theorem exists_serve_sync (hpeers : SyncPeers config host port authorization)
    (hitem : SyncItem c config item) (hkeep : s.st.connectionKeepalive = true) :
    ∃ s', serve c config s (syncRequestText host port authorization item) = some s' ∧
      Synced c authorization s [item] s' ∧ s'.st.connectionKeepalive = true := by
  obtain ⟨s₁, hheaders, hhead⟩ := exists_syncHead hpeers hitem s
  obtain ⟨s₂, hend, hbody⟩ := hhead.endHeaders hitem.nonempty
  obtain ⟨s', hserve, hsynced⟩ := hbody.exists_synced hpeers hitem hkeep
  refine ⟨s', ?_, hsynced⟩
  rw [serve, show (syncRequestText host port authorization item).headers =
    syncHeaders host port authorization item from rfl, hheaders, Option.bind_some, hend]
  exact hserve

/-- Messages that arrive whole. -/
theorem exists_serve_syncs (hpeers : SyncPeers config host port authorization)
    {items : List (List Byte)} (hitems : ∀ item ∈ items, SyncItem c config item)
    (hkeep : s.st.connectionKeepalive = true) :
    ∃ s', (items.map (syncRequestText host port authorization)).foldlM (serve c config) s =
      some s' ∧ Synced c authorization s items s' ∧ s'.st.connectionKeepalive = true := by
  induction items generalizing s with
  | nil => exact ⟨s, rfl, ⟨rfl, (List.append_nil _).symm, rfl⟩, hkeep⟩
  | cons item items ih =>
    obtain ⟨s₁, hserve, hone, hkeep₁⟩ :=
      exists_serve_sync hpeers (hitems item List.mem_cons_self) hkeep
    obtain ⟨s', hrun, hrest, hkeep'⟩ := ih (fun item h => hitems item (List.mem_cons_of_mem _ h))
      hkeep₁
    refine ⟨s', ?_, hone.append hrest, hkeep'⟩
    rw [List.map_cons, List.foldlM_cons, hserve]
    exact hrun

/-- Until a message is whole, nothing is done for it. -/
theorem readsTo_sync (hpeers : SyncPeers config host port authorization)
    (hitem : SyncItem c config item) (h : Idle s) (hkeep : s.st.connectionKeepalive = true) :
    ∃ s', ReadsTo (feed c config) .ok (Synced c authorization s []) s
        [syncText host port authorization item] s' ∧
      Idle s' ∧ Synced c authorization s [item] s' ∧ s'.st.connectionKeepalive = true := by
  obtain ⟨s', hserve, hsynced, hkeep'⟩ := exists_serve_sync (s := s) hpeers hitem hkeep
  rw [syncText_eq hpeers hitem.len.2]
  have hread : ReadsTo (feed c config) .ok (Synced c authorization s []) s
      [(syncRequestText host port authorization item).text] s' ∧ Idle s' := by
    refine readsTo_request (wellFormed_syncRequestText hpeers hitem.len.2) h ?_ ?_ hserve
    · intro s₁ hsame
      refine ⟨hsame.w, ?_, hsame.jobs⟩
      rw [Server.replies, hsame.log]
      exact (List.append_nil _).symm
    · -- its headers are whole, and its content is not
      intro s₁ s₂ p hheaders hend
      obtain ⟨s₁', hheaders', hhead⟩ := exists_syncHead hpeers hitem s
      obtain rfl := Option.some.inj (hheaders.symm.trans hheaders')
      obtain ⟨s₂', hend', hbody⟩ := hhead.endHeaders hitem.nonempty
      obtain rfl := Sum.inl.inj (hend.symm.trans hend')
      exact ⟨hbody.w, hbody.replies.trans (List.append_nil _).symm, hbody.jobs⟩
  exact ⟨s', hread.1, hread.2, hsynced, hkeep'⟩

/-- **Messages are executed once and in order.** Of a stream of messages, cut into whatever pieces,
the ones that have arrived whole have been executed, one after the other, and each has its reply;
nothing was done for the one that has not. -/
theorem sync_delivered (hpeers : SyncPeers config host port authorization) (h : Idle s)
    (hkeep : s.st.connectionKeepalive = true) {items : List (List Byte)}
    (hitems : ∀ item ∈ items, SyncItem c config item) (hitem : SyncItem c config item)
    {reads : List (List Byte)} {p q : List Byte} (hq : q ≠ [])
    (hpart : p ++ q = syncText host port authorization item)
    (hreads : reads.flatten = (items.map (syncText host port authorization)).flatten ++ p) :
    ∃ s', readAll c config s reads = .ok s' ∧ Synced c authorization s items s' := by
  obtain ⟨s₁, hserve, hsynced, hkeep₁⟩ := exists_serve_syncs (s := s) hpeers hitems hkeep
  have hwf : ∀ r ∈ items.map (syncRequestText host port authorization),
      r.WellFormed config.httpHeaderMaxSize := by
    intro r hr
    obtain ⟨item, hmem, rfl⟩ := List.mem_map.mp hr
    exact wellFormed_syncRequestText hpeers (hitems item hmem).len.2
  have htexts : (items.map (syncRequestText host port authorization)).map RequestText.text =
      items.map (syncText host port authorization) := by
    rw [List.map_map]
    exact List.map_congr_left fun item hmem => (syncText_eq hpeers (hitems item hmem).len.2).symm
  obtain ⟨hwhole, hidle⟩ := readsTo_stream h hwf hserve
  rw [htexts] at hwhole
  obtain ⟨s₂, hnext, hidle₂, -⟩ := readsTo_sync hpeers hitem hidle hkeep₁
  obtain ⟨s', hfeed, hinv⟩ := hnext.feed_part hq hpart
  have hall := hwhole.append (hnext.mono fun _ _ => trivial)
  have htext : reads.flatten ++ q = (items.map (syncText host port authorization) ++
      [syncText host port authorization item]).flatten := by
    rw [hreads, List.append_assoc, hpart, List.flatten_append, List.flatten_singleton]
  refine ⟨s', ?_, ?_⟩
  · calc readAll c config s reads
        = feed c config s reads.flatten := (hall.pieces_eq (feed_idle hidle₂)).2 q htext
      _ = feed c config s₁ p := by rw [hreads, hwhole.feed_whole]
      _ = .ok s' := hfeed
  · have happend := hsynced.append hinv
    rwa [List.append_nil] at happend

/-- A node that writes down what it is told. -/
def syncCaster : Caster (List CString) Unit where
  threads := false
  configDir := []
  sourcetableGet := fun _ => none
  stackFindMountpoint := fun _ _ => none
  stackFindLocalMountpoint := fun _ _ => none
  livesourceFindAndSubscribe := fun w _ _ => (false, w)
  livesourceConnected := fun w _ => (0, w)
  contentCb := fun _ w req => ⟨200, none, w ++ [req.json.getD []]⟩
  dropsItself := fun _ _ => false
  mallocStatsDump := fun _ _ => none
  readFile := fun _ _ => .noFile
  jsonTokenerParse := fun _ => true
  parseGga := fun _ => none

/-- Two messages and a part of a third one, cut inside the first. -/
theorem sync_delivered_syncCaster :
    let config := { smallConfig with syncerAuth := some (cstr "token") }
    let text := syncText (cstr "node") 2101 (cstr "token")
    ∃ s' : Server (List CString) Unit,
      readAll syncCaster config (.accepted smallPeer [] (.new 509 HashTable.zero_lt_509))
        [(text (cstr "\x7b\x7d")).take 50,
          (text (cstr "\x7b\x7d")).drop 50 ++ (text (cstr "[]") ++ (text (cstr "1")).take 9)] =
        .ok s' ∧ s'.w = [cstr "\x7b\x7d", cstr "[]"] := by
  intro config text
  have hpeers : SyncPeers config (cstr "node") 2101 (cstr "token") :=
    ⟨by decide, by decide, by decide, rfl, by decide, by decide⟩
  have hitems : ∀ item ∈ [cstr "\x7b\x7d", cstr "[]", cstr "1"],
      SyncItem syncCaster config item := by
    have hlen : ∀ item ∈ [cstr "\x7b\x7d", cstr "[]", cstr "1"],
        item ≠ [] ∧ item.length ≤ 4000000 := by decide
    exact fun item hitem => ⟨(hlen item hitem).1, ⟨(hlen item hitem).2,
      (hlen item hitem).2.trans_lt (by decide)⟩, rfl⟩
  have hidle : Idle (Server.accepted (G := Unit) smallPeer ([] : List CString)
      (.new 509 HashTable.zero_lt_509)) := ⟨⟨rfl, rfl, rfl, rfl⟩, rfl⟩
  have hq : (text (cstr "1")).drop 9 ≠ [] := by decide
  have hreads : [(text (cstr "\x7b\x7d")).take 50,
      (text (cstr "\x7b\x7d")).drop 50 ++ (text (cstr "[]") ++ (text (cstr "1")).take 9)].flatten =
      ([cstr "\x7b\x7d", cstr "[]"].map text).flatten ++ (text (cstr "1")).take 9 := by
    simp only [List.flatten_cons, List.flatten_nil, List.map_cons, List.map_nil, List.append_nil,
      List.append_assoc]
    rw [← List.append_assoc, List.take_append_drop]
  obtain ⟨s', hs', hsynced⟩ := sync_delivered hpeers hidle rfl
    (fun item h => hitems item (List.mem_append_left [cstr "1"] h)) (hitems (cstr "1") (by simp)) hq
    (List.take_append_drop 9 _) hreads
  exact ⟨s', hs', hsynced.w⟩

end Ntripsrv

end ChilopodCaster
