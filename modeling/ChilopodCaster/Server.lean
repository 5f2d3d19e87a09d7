import ChilopodCaster.Auth
import ChilopodCaster.ChunkDecode
import ChilopodCaster.Quota
import ChilopodCaster.Rtcm.Framing

/-!
# The server side of a connection

`ntripsrv_readcb`, the loop that reads requests and answers them (`ntripsrv.c`), with the functions
it calls for `/adm` and for files (`adm.c` and `file.c`). Each read callback runs the input filter,
then goes round the loop as long as the input buffer holds something, and at the end replies to the
error it left the loop with.

A connection is a session and what it shares with the rest of the caster. The rest of the caster is
a parameter: a state `W`, and what the loop asks of it, collected in `Caster`. A position is of any
type `G`. Memory is never short.

Reads of freed memory are faults of the model, like a loop without end. The log of a connection is
not in the source: it records the requests and the replies in order.

## Main definitions

* `Config`, `Caster`, `NtripState`, `Server` — the configuration, the rest of the caster, a session,
  and a connection
* `admsrv`, `filesrv`, `getRequest`, `postRequest` — what is done with a request
* `round`, `ntripsrvReadcb` — one round of the loop, and the callback
* `Server.step` — what happens on a connection
-/

namespace ChilopodCaster

namespace Ntripsrv

open ChunkDecode

/-! ### What a session is made of -/

/-- `struct config_webroots`. -/
structure Webroot where
  path : CString
  uri : CString
  deriving DecidableEq, Repr

/-- The fields of `struct config` that a server session reads. -/
structure Config where
  httpHeaderMaxSize : ℕ
  httpContentLengthMax : ℕ
  adminUser : CString
  sourceAuth : Option (List AuthEntry)
  roverAuthFilename : Option CString
  roverAuth : Option (List RoverAuthEntry)
  userAuth : Option (List UserAuthEntry)
  syncerAuth : Option CString
  trustedHttpProxyPrefixes : List Prefix
  trustedHttpIpHeader : Option CString
  blocklist : Option PrefixTable
  webroots : List Webroot
  uiDir : Option CString
  deriving DecidableEq, Repr

/-- The headers that are looked at, in the order in which the source compares their names. -/
inductive HeaderKind
  | host
  | transferEncoding
  | connection
  | contentLength
  | contentType
  | ntripVersion
  | agent
  | authorization
  | ntripGga
  | forwarded
  | other
  deriving DecidableEq, Repr

/-- A header line, as it was recognised. -/
structure Header where
  kind : HeaderKind
  key : CString
  value : CString
  deriving DecidableEq, Repr

/-- The fields of `struct ntrip_state` that the request loop uses. What has been read of the content
of a request has the length `content_done`. -/
structure NtripState (G : Type) extends Session where
  peer : Peer
  connectionKeepalive : Bool
  receivedKeepalive : Bool
  contentLength : ℕ
  content : Option (List Byte)
  contentType : Option CString
  httpArgs : List CString
  nHttpArgs : ℕ
  clientVersion : ℕ
  userAgentNtrip : Bool
  schemeBasic : Bool
  user : Option CString
  password : Option CString
  queryString : Option CString
  lastPos : Option G
  sourceVirtual : Bool
  mountpoint : Option CString
  /-- the headers of the request, which the source does not keep -/
  headers : List Header

/-- A session as `ntripsrv_listener_cb` makes it. -/
def NtripState.new (G : Type) (peer : Peer) : NtripState G where
  rawInput := []
  chunkBuf := none
  input := .rawInput
  inFilter := false
  chunkState := .chunkNone
  chunkLen := 0
  receivedBytes := 0
  state := .waitHttpMethod
  peer := peer
  connectionKeepalive := true
  receivedKeepalive := false
  contentLength := 0
  content := none
  contentType := none
  httpArgs := []
  nHttpArgs := 0
  clientVersion := 0
  userAgentNtrip := false
  schemeBasic := false
  user := none
  password := none
  queryString := none
  lastPos := none
  sourceVirtual := false
  mountpoint := none
  headers := []

/-- `struct mime_content`. -/
structure Content where
  mimeType : Option CString
  s : List Byte
  deriving DecidableEq, Repr

/-- What is added to the output of a connection: a reply of `send_server_reply`, or a fixed text.
The server headers, the date and the version are the same in every reply. -/
inductive Reply
  | server (firstword : CString) (statusCode : ℕ) (msg : CString) (m : Option Content)
      (keepAlive : Bool) (headers : List (CString × CString))
  | text (s : CString)
  deriving DecidableEq, Repr

/-- What the log records. -/
inductive Event
  /-- the end of the headers of a request, with the address it came from and the configuration in
  force -/
  | request (httpArgs : List CString) (headers : List Header) (remoteAddr : CString)
      (config : Config)
  /-- the end of its content -/
  | content (s : List Byte)
  | reply (r : Reply)
  /-- `livesource_add_subscriber`, called or left to a job -/
  | subscribe (mountpoint : CString)
  /-- `ntripsrv_redo_virtual_pos_limited`, called or left to a job -/
  | redoVirtualPos
  /-- the session feeds a mountpoint, after `livesource_connected` -/
  | connected (mountpoint : CString)
  deriving DecidableEq, Repr

/-- The functions of `api.c` that compute the content of a reply. -/
inductive ContentCb
  | ntripList
  | rtcm
  | mem
  | nodes
  | log
  | authList
  | settingsGet
  | livesourceList
  | sourcetableList
  | near
  | alarms
  | whoami
  | reload
  | drop
  | addSource
  | removeSource
  | detectSource
  | editSource
  | authSet
  | settingsSet
  | sync
  deriving DecidableEq, Repr

/-- `struct request`, with the text of its JSON object, and what the content functions read of the
session it comes from. -/
structure Request where
  hash : Option (HashTable CString)
  json : Option CString
  user : Option CString
  adminRole : AdminRole

/-- A job of `joblist_append_ntrip_unlocked_content`. -/
structure ContentJob where
  contentCb : ContentCb
  req : Request

/-- A connection: its session, the state of the rest of the caster and the table of its quotas, the
jobs queued for the session, and the log. -/
structure Server (W G : Type) where
  st : NtripState G
  w : W
  ipcount : HashTable ℤ
  jobs : List ContentJob
  log : List Event

/-- Undefined behaviour. -/
inductive Fault
  /-- a read of a buffer that was freed -/
  | freedBuffer
  /-- a read of a session that was freed -/
  | freedSession
  /-- a loop that never ends -/
  | endlessLoop
  /-- a failed assertion of the quota table -/
  | assertion
  /-- a read outside a packet -/
  | outsidePacket
  deriving DecidableEq, Repr

/-! ### The rest of the caster -/

/-- The fields of a `struct sourceline` that matter to a session. -/
structure SourceFlags where
  virtual : Bool
  onDemand : Bool
  deriving DecidableEq, Repr

/-- What comes of opening and reading a file. -/
inductive FileRead
  | noFile
  | notRegular
  | failed
  | file (content : List Byte)

/-- What a content function answers, with the state of the caster after it. -/
structure Answer (W : Type) where
  status : ℕ
  m : Option Content
  w : W

/-- What a session asks of the rest of the caster. -/
structure Caster (W G : Type) where
  /-- whether jobs are run by threads -/
  threads : Bool
  configDir : CString
  /-- the text of `stack_flatten` and `sourcetable_get` -/
  sourcetableGet : W → Option (List Byte)
  stackFindMountpoint : W → CString → Option SourceFlags
  stackFindLocalMountpoint : W → CString → Option SourceFlags
  livesourceFindAndSubscribe : W → CString → Bool → Bool × W
  livesourceConnected : W → CString → ℤ × W
  contentCb : ContentCb → W → Request → Answer W
  /-- whether the identifier given to `api_drop_json` is that of the session, or 0 for all -/
  dropsItself : W → Request → Bool
  mallocStatsDump : W → Bool → Option Content
  readFile : W → CString → FileRead
  /-- whether `json_tokener_parse` finds an object -/
  jsonTokenerParse : CString → Bool
  parseGga : CString → Option G

variable {W G : Type}

/-! ### Replies -/

namespace Server

/-- Something is recorded. -/
def record (s : Server W G) (e : Event) : Server W G := { s with log := s.log ++ [e] }

/-- `st->client_version = 0`: a plain HTTP reply, whatever the client. -/
def forceHttp (s : Server W G) : Server W G := { s with st := { s.st with clientVersion := 0 } }

/-- `ntrip_set_state`. -/
def setState (s : Server W G) (state : SessionState) : Server W G :=
  { s with st := { s.st with state := state } }

end Server

/-- The table `httpcodes`. -/
def httpcodes : List (ℕ × CString) :=
  [(200, cstr "OK"), (400, cstr "Bad Request"), (401, cstr "Unauthorized"), (404, cstr "Not Found"),
    (405, cstr "Method Not Allowed"), (409, cstr "Conflict"), (413, cstr "Content Too Large"),
    (431, cstr "Request Header Fields Too Large"), (500, cstr "Internal Server Error"),
    (501, cstr "Not Implemented"), (503, cstr "Service Unavailable")]

/-- The message of a status. -/
def httpMessage (statusCode : ℕ) : CString :=
  (httpcodes.lookup statusCode).getD (cstr "Unknown Error")

/-- `send_server_reply`. -/
def sendServerReply (s : Server W G) (statusCode : ℕ) (headers : List (CString × CString))
    (firstword : Option CString) (m : Option Content) : Server W G :=
  let firstword :=
    if s.st.clientVersion = 1 ∧ s.st.userAgentNtrip then firstword.getD (cstr "HTTP/1.1")
    else cstr "HTTP/1.1"
  s.record (.reply (.server firstword statusCode (httpMessage statusCode) m
    (s.st.connectionKeepalive && s.st.receivedKeepalive) headers))

/-- `ntripsrv_send_sourcetable`, with the error it returns. -/
def sendSourcetable (c : Caster W G) (s : Server W G) : Server W G × ℕ :=
  match c.sourcetableGet s.w with
  | none => (s, 503)
  | some text =>
    let mimeType := if s.st.clientVersion ≠ 2 then cstr "text/plain" else cstr "gnss/sourcetable"
    (sendServerReply s 200 [] (some (cstr "SOURCETABLE")) (some ⟨some mimeType, text⟩), 0)

/-- The reply of the first version of the protocol that starts a stream to a client. -/
def icyStream : CString := cstr "ICY 200 OK\r\nContent-Length: 0\r\nConnection: close\r\n\r\n"

/-- `_ntripsrv_send_result_ok`, which no caller gives headers of its own. -/
def sendResultOk (s : Server W G) (mimeType : Option CString) (m : Option Content) : Server W G :=
  if s.st.clientVersion = 1 then s.record (.reply (.text icyStream))
  else
    let contentType :=
      match m, mimeType with
      | none, some t => [(cstr "Content-Type", t)]
      | _, _ => []
    sendServerReply s 200
      (contentType ++ [(cstr "Cache-Control", cstr "no-store, no-cache, max-age=0"),
        (cstr "Pragma", cstr "no-cache")]) none m

/-- `ntrip_decref_end`. -/
def decrefEnd (s : Server W G) : Server W G :=
  { s with st := { s.st with toSession := ntripDecrefEnd s.st.toSession } }

/-- `ntripsrv_deferred_output`. Without threads, a session that drops itself is freed before the
function locks it again. -/
def deferredOutput (c : Caster W G) (s : Server W G) (contentCb : ContentCb) (req : Request) :
    Except Fault (Server W G) :=
  let answer := c.contentCb contentCb s.w req
  let drops := contentCb = .drop ∧ s.st.state ≠ .ntripEnd ∧ c.dropsItself s.w req
  if drops ∧ ¬ c.threads then .error .freedSession
  else
    let s := { s with w := answer.w }
    let s := if drops then decrefEnd s else s
    if s.st.state ≠ .ntripEnd then
      let s := sendServerReply s answer.status [] none answer.m
      .ok (s.setState (if s.st.connectionKeepalive ∧ s.st.receivedKeepalive then .waitHttpMethod
        else .waitClose))
    else .ok s

/-- `joblist_append_ntrip_unlocked_content`. -/
def appendContent (c : Caster W G) (s : Server W G) (contentCb : ContentCb) (req : Request) :
    Except Fault (Server W G) :=
  if c.threads then .ok { s with jobs := s.jobs ++ [⟨contentCb, req⟩] }
  else deferredOutput c s contentCb req

/-! ### Files and administration -/

/-- What follows the last dot of a path, the dot included. -/
def lastDot (path : CString) : Option CString :=
  if 46 ∈ path then some (46 :: (path.reverse.takeWhile (· ≠ 46)).reverse) else none

/-- `ui_mime_type`. -/
def uiMimeType (path : CString) : CString :=
  match lastDot path with
  | none => cstr "application/octet-stream"
  | some dot =>
    if dot = cstr ".html" then cstr "text/html"
    else if dot = cstr ".js" then cstr "application/javascript"
    else if dot = cstr ".css" then cstr "text/css"
    else if dot = cstr ".json" then cstr "application/json"
    else if dot = cstr ".svg" then cstr "image/svg+xml"
    else if dot = cstr ".ico" then cstr "image/x-icon"
    else cstr "application/octet-stream"

/-- What a handler leaves: the connection, the error, and the headers of the reply to it. -/
structure Handled (W G : Type) where
  s : Server W G
  err : ℕ
  headers : List (CString × CString)

/-- The path of a file of the user interface, from its directory. -/
def uiRel (uri : CString) : CString :=
  if uri = cstr "/ui" ∨ uri = cstr "/ui/" then cstr "index.html" else uri.drop 4

/-- `ui_serve`, or `none` if it is not a path of the user interface. -/
def uiServe (c : Caster W G) (config : Config) (s : Server W G) (uri : CString) :
    Option (Handled W G) :=
  if uri ≠ cstr "/ui" ∧ ¬ (cstr "/ui/").isPrefixOf uri then none
  else
    match config.uiDir with
    | none => some ⟨s, 404, []⟩
    | some uiDir =>
      let rel := uiRel uri
      if (rel.splitOn 47).any ((cstr "..").isPrefixOf ·) then some ⟨s, 404, []⟩
      else
        match c.readFile s.w (uiDir ++ [47] ++ rel) with
        | .noFile => some ⟨s, 404, []⟩
        | .notRegular => some ⟨s, 404, []⟩
        | .failed => some ⟨s, 503, []⟩
        | .file content =>
          let s := sendResultOk s.forceHttp none (some ⟨some (uiMimeType rel), content⟩)
          some ⟨s.setState .waitClose, 0, []⟩

/-- `path_join`. -/
def pathJoin (abs : CString) (list : List CString) : CString :=
  let start := if (list.head?.bind List.head?).any (· ≠ 47) ∨ list.head? = some [] then abs else []
  list.foldl (fun r p =>
    let r := if p.tail ≠ [] ∧ r.getLast? ≠ some 47 then r ++ [47] else r
    r ++ (if p.head? = some 47 then p.tail else p)) start

/-- `check_safe_uri`. -/
def checkSafeUri (uri : CString) : Bool :=
  ((uri.splitOn 47).dropLast.all fun p => p ≠ cstr "." ∧ p ≠ cstr "..")

/-- `filesrv`, or `none` if no web root is configured for the path. -/
def filesrv (c : Caster W G) (config : Config) (s : Server W G) (uri : CString) :
    Option (Handled W G) :=
  match config.webroots.find? (fun wr => wr.uri ≠ [] ∧ wr.uri.isPrefixOf uri) with
  | none => none
  | some wr =>
    if checkSafeUri uri = false then some ⟨s, 404, []⟩
    else
      let s := s.forceHttp
      match c.readFile s.w (pathJoin c.configDir [wr.path, uri]) with
      | .noFile => some ⟨s, 404, []⟩
      | .notRegular => some ⟨s, 503, []⟩
      | .failed => some ⟨s, 503, []⟩
      | .file content =>
        some ⟨(sendResultOk s none (some ⟨none, content⟩)).setState .waitClose, 0, []⟩

/-- The routes of `/adm/api/v1`: path, method and content function. -/
def calls : List (CString × CString × ContentCb) :=
  [(cstr "/api/v1/net", cstr "GET", .ntripList), (cstr "/api/v1/rtcm", cstr "GET", .rtcm),
    (cstr "/api/v1/mem", cstr "GET", .mem), (cstr "/api/v1/nodes", cstr "GET", .nodes),
    (cstr "/api/v1/log", cstr "GET", .log), (cstr "/api/v1/auth", cstr "GET", .authList),
    (cstr "/api/v1/settings", cstr "GET", .settingsGet),
    (cstr "/api/v1/livesources", cstr "GET", .livesourceList),
    (cstr "/api/v1/sourcetables", cstr "GET", .sourcetableList),
    (cstr "/api/v1/near", cstr "GET", .near), (cstr "/api/v1/alarms", cstr "GET", .alarms),
    (cstr "/api/v1/whoami", cstr "GET", .whoami), (cstr "/api/v1/reload", cstr "POST", .reload),
    (cstr "/api/v1/drop", cstr "POST", .drop), (cstr "/api/v1/sources", cstr "POST", .addSource),
    (cstr "/api/v1/sources/remove", cstr "POST", .removeSource),
    (cstr "/api/v1/sources/detect", cstr "POST", .detectSource),
    (cstr "/api/v1/sources/edit", cstr "POST", .editSource),
    (cstr "/api/v1/auth", cstr "POST", .authSet),
    (cstr "/api/v1/settings", cstr "POST", .settingsSet)]

/-- The role of who calls `/adm`, by the `Authorization` header or by the arguments. -/
def hashRole (config : Config) (st : NtripState G) (hash : HashTable CString) : AdminRole :=
  let basic := st.schemeBasic ∧ st.user.isSome ∧ st.password.isSome
  resolveAdminRole config.sourceAuth config.adminUser config.userAuth
    (if basic then st.user else hash.get (cstr "user"))
    (if basic then st.password else hash.get (cstr "password"))

/-- A call of `/adm` that has arguments in URL encoding. -/
def admsrvHash (c : Caster W G) (config : Config) (s : Server W G) (method uri : CString)
    (hash : HashTable CString) : Except Fault (Handled W G) :=
  let adminRole := hashRole config s.st hash
  if adminRole = .roleNone then .ok ⟨s, 401, []⟩
  else if ∀ call ∈ calls, call.1 ≠ uri then .ok ⟨s, 404, []⟩
  else
    match calls.find? (fun call => call.1 = uri ∧ call.2.1 = method) with
    | none => .ok ⟨s, 405, []⟩
    | some call =>
      if method = cstr "POST" ∧ adminRole ≠ .roleAdmin then .ok ⟨s, 403, []⟩
      else
        (appendContent c s call.2.2 ⟨some hash, none, s.st.user, adminRole⟩).map fun s => ⟨s, 0, []⟩

/-- A call of `/adm` that posts JSON. -/
def admsrvJson (c : Caster W G) (config : Config) (s : Server W G) (uri : CString)
    (content : CString) : Except Fault (Handled W G) :=
  if c.jsonTokenerParse content = false then .ok ⟨s, 400, []⟩
  else if uri = cstr "/api/v1/sync" then
    if config.syncerAuth = none ∨ s.st.schemeBasic ∨ config.syncerAuth ≠ s.st.password then
      .ok ⟨s, 401, []⟩
    else
      (deferredOutput c s .sync ⟨none, some content, s.st.user, .roleNone⟩).map fun s => ⟨s, 0, []⟩
  else .ok ⟨s, 404, []⟩

/-- A call of `/adm` of the older kind. -/
def admsrvLegacy (c : Caster W G) (config : Config) (s : Server W G) (rootUri uri : CString) :
    Except Fault (Handled W G) :=
  let adminRole := resolveAdminRole config.sourceAuth config.adminUser config.userAuth s.st.user
    s.st.password
  if s.st.user = none ∨ adminRole = .roleNone then
    .ok ⟨s, 401, [(cstr "WWW-Authenticate", cstr "Basic realm=\"" ++ rootUri ++ cstr "\"")]⟩
  else if uri = cstr "/mem" ∨ uri = cstr "/mem.json" then
    match c.mallocStatsDump s.w (uri = cstr "/mem.json") with
    | some m => .ok ⟨(sendResultOk s none (some m)).setState .waitClose, 0, []⟩
    | none => .ok ⟨s.record (.reply (.text (cstr "Out of memory :(\n"))), 500, []⟩
  else if uri = cstr "/net" then
    (appendContent c s .ntripList ⟨none, none, s.st.user, adminRole⟩).map fun s => ⟨s, 0, []⟩
  else .ok ⟨s, 404, []⟩

/-- `admsrv`. -/
def admsrv (c : Caster W G) (config : Config) (s : Server W G) (method rootUri uri : CString) :
    Except Fault (Handled W G) :=
  match if method = cstr "GET" then uiServe c config s uri else none with
  | some h => .ok h
  | none =>
    let s := s.forceHttp
    let form := cstr "application/x-www-form-urlencoded"
    let json := cstr "application/json"
    if method = cstr "POST" then
      if s.st.contentType.any (fun t => t ≠ form ∧ t ≠ json) then .ok ⟨s, 503, []⟩
      else if s.st.contentType = none ∨ s.st.contentType = some form then
        match hashFromUrlencoding (s.st.content.map toCString) with
        | none => .ok ⟨s, 503, []⟩
        | some hash => admsrvHash c config s method uri hash
      else
        match s.st.content with
        | none => .ok ⟨s, 400, []⟩
        | some content => admsrvJson c config s uri (toCString content)
    else if method = cstr "GET" ∧
        (s.st.queryString.isSome ∨ (cstr "/api/v1/").isPrefixOf uri) then
      match hashFromUrlencoding s.st.queryString with
      | none => .ok ⟨s, 503, []⟩
      | some hash => admsrvHash c config s method uri hash
    else admsrvLegacy c config s rootUri uri

/-! ### Headers -/

/-- The last address of a forwarded header, after the last comma and the blanks. -/
def lastForwarded (value : CString) : CString :=
  (value.reverse.takeWhile (· ≠ 44)).reverse.dropWhile isspace

/-- Whether the peer of a session is a trusted proxy. -/
def trusts (config : Config) (peer : Peer) : Bool :=
  config.trustedHttpProxyPrefixes.any fun pfx => ipInPrefix pfx peer.peeraddr

/-- `_handle_forwarded_header`, with the error it returns. -/
def handleForwardedHeader (config : Config) (s : Server W G) (value : CString) :
    Except Fault (Server W G × ℕ) :=
  if trusts config s.st.peer = false then .ok (s, 0)
  else
    match ipConvert (lastForwarded value) with
    | none => .ok (s, 400)
    | some realaddr =>
      match ntripQuotaChange s.ipcount s.st.peer realaddr with
      | none => .error .assertion
      | some (peer, ipcount, ipCount) =>
        let s := { s with
          st := { s.st with peer := { peer with peeraddr := realaddr } }
          ipcount := ipcount }
        let quota := ntripQuotaGet config.blocklist realaddr
        .ok (s, if ntripQuotaCheck quota ipCount then 0 else 1)

/-- The name of the header that gives the address of the client of a proxy. -/
def forwardedName (config : Config) : CString :=
  config.trustedHttpIpHeader.getD (cstr "x-forwarded-for")

/-- Which header a name is. -/
def headerKind (config : Config) (key : CString) : HeaderKind :=
  if !strcasecmp key (cstr "host") then .host
  else if !strcasecmp key (cstr "transfer-encoding") then .transferEncoding
  else if !strcasecmp key (cstr "connection") then .connection
  else if !strcasecmp key (cstr "content-length") then .contentLength
  else if !strcasecmp key (cstr "content-type") then .contentType
  else if !strcasecmp key (cstr "ntrip-version") then .ntripVersion
  else if !strcasecmp key (cstr "user-agent") || !strcasecmp key (cstr "source-agent") then .agent
  else if !strcasecmp key (cstr "authorization") then .authorization
  else if !strcasecmp key (cstr "ntrip-gga") then .ntripGga
  else if !strcasecmp key (forwardedName config) then .forwarded
  else .other

/-- A header that only sets fields of the session, with the error. -/
def setHeader (c : Caster W G) (config : Config) (st : NtripState G) (value : CString) :
    HeaderKind → NtripState G × ℕ
  | .transferEncoding =>
    (if !strcasecmp value (cstr "chunked") then { st with chunkState := .chunkInit } else st, 0)
  | .connection =>
    (if !strcasecmp value (cstr "keep-alive") then { st with receivedKeepalive := true } else st, 0)
  | .contentLength =>
    match sscanfLu value with
    | some contentLength =>
      if contentLength > config.httpContentLengthMax then (st, 413)
      else ({ st with contentLength := contentLength }, 0)
    | none => (st, 0)
  | .contentType => ({ st with contentType := some value }, 0)
  | .ntripVersion =>
    (if !strcasecmp value (cstr "ntrip/2.0") then { st with clientVersion := 2 } else st, 0)
  | .agent =>
    if mystrcasestr value (cstr "ntrip") then
      ({ st with
        userAgentNtrip := true
        clientVersion := if st.clientVersion = 0 then 1 else st.clientVersion }, 0)
    else (st, 0)
  | .authorization =>
    match httpDecodeAuth value with
    | some auth =>
      ({ st with
        schemeBasic := auth.schemeBasic
        user := some auth.user
        password := some auth.password }, 0)
    | none => (st, 0)
  | .ntripGga =>
    match c.parseGga value with
    | some pos => ({ st with lastPos := some pos }, 0)
    | none => (st, 0)
  | .host => (st, 0)
  | .forwarded => (st, 0)
  | .other => (st, 0)

/-- What is done with one header, with the error. -/
def handleHeader (c : Caster W G) (config : Config) (s : Server W G) (key value : CString) :
    Except Fault (Server W G × ℕ) :=
  let kind := headerKind config key
  if kind = .forwarded then handleForwardedHeader config s value
  else
    let (st, err) := setHeader c config s.st value kind
    .ok ({ s with st := st }, err)

/-! ### Requests -/

/-- How the loop is left: the error, whether a source was being answered, and the headers of the
reply to the error. -/
structure Leave where
  err : ℕ
  methodPostSource : Bool
  headers : List (CString × CString)
  deriving DecidableEq, Repr

/-- What one round of the loop comes to: another round, or an end. -/
abbrev Outcome (W G : Type) := Server W G ⊕ Except Fault (Server W G × Leave)

/-- `break`. -/
def leave (s : Server W G) (err : ℕ) : Outcome W G := .inr (.ok (s, ⟨err, false, []⟩))

/-- `continue`: the loop goes on if there is no error. -/
def goOn (h : Handled W G) : Outcome W G :=
  if h.err = 0 then .inl h.s else .inr (.ok (h.s, ⟨h.err, false, h.headers⟩))

/-- Whether a path is under `/adm/`. -/
def isAdm (uri : CString) : Bool := (cstr "/adm/").isPrefixOf uri

/-- A stream is granted to a client. -/
def startStream (s : Server W G) (mountpoint : CString) (virtual : Bool) : Server W G :=
  let s := { s with st := { s.st with
    connectionKeepalive := false
    sourceVirtual := virtual
    mountpoint := some mountpoint } }
  let s := (sendResultOk s (some (cstr "gnss/data")) none).setState .waitClientInput
  if s.st.lastPos.isSome then s.record .redoVirtualPos else s

/-- The table of sources is sent in answer to a `GET`. -/
def getSourcetable (c : Caster W G) (s : Server W G) : Outcome W G :=
  let (s, err) := sendSourcetable c s
  if s.st.connectionKeepalive ∧ s.st.receivedKeepalive then
    goOn ⟨s.setState (if s.st.contentLength ≠ 0 then .waitClientContent else .waitHttpMethod), err,
      []⟩
  else leave (s.setState .waitClose) err

/-- A `GET` of a mountpoint by a client who may have it. -/
def getMountpoint (c : Caster W G) (s : Server W G) (mountpoint : CString) : Outcome W G :=
  let sourceline := c.stackFindMountpoint s.w mountpoint
  let (subscribeOk, w) :=
    if sourceline.all (!·.virtual) then
      c.livesourceFindAndSubscribe s.w mountpoint (sourceline.any (·.onDemand))
    else (false, s.w)
  let s := { s with w := w }
  let s := if subscribeOk then s.record (.subscribe mountpoint) else s
  match sourceline with
  | none =>
    if subscribeOk then .inl (startStream s mountpoint false)
    else if s.st.clientVersion = 1 then getSourcetable c s
    else leave { s with st := { s.st with connectionKeepalive := false } } 404
  | some sourceline =>
    let s := { s with st := { s.st with
      connectionKeepalive := false
      sourceVirtual := sourceline.virtual } }
    if sourceline.virtual ∨ subscribeOk then .inl (startStream s mountpoint sourceline.virtual)
    else if s.st.clientVersion = 1 then
      let (s, err) := sendSourcetable c s
      leave (s.setState .waitClose) err
    else leave s 404

/-- A `GET`. -/
def getRequest (c : Caster W G) (config : Config) (s : Server W G) (uri : CString) : Outcome W G :=
  if uri.head? ≠ some 47 then leave s 400
  else if isAdm uri then
    match admsrv c config s (cstr "GET") (cstr "/adm") (uri.drop 4) with
    | .error f => .inr (.error f)
    | .ok h => .inr (.ok (h.s, ⟨h.err, false, h.headers⟩))
  else
    match filesrv c config s uri with
    | some h => leave h.s h.err
    | none =>
      let mountpoint := uri.tail
      if mountpoint = [] then getSourcetable c s
      else if config.roverAuthFilename.isSome ∧
          checkRoverPassword config.roverAuth s.st.user s.st.password = false ∧
          roverAuthExemptPeer s.st.peer.remoteAddr = false then leave s 401
      else getMountpoint c s mountpoint

/-- A source that may feed a mountpoint if its password is right. -/
def sourceRequest (c : Caster W G) (config : Config) (s : Server W G) (mountpoint : CString)
    (user : Option CString) (password : CString) : Outcome W G :=
  let r := checkPassword config.sourceAuth mountpoint user password
  let leave s err : Outcome W G := .inr (.ok (s, ⟨err, true, []⟩))
  let sourceline := c.stackFindLocalMountpoint s.w mountpoint
  if r = .mountpointInvalid then leave s 401
  else if sourceline.any (·.virtual) then leave s 404
  else if sourceline = none ∧ r ≠ .mountpointWildcard then leave s 404
  else
    let s := { s with st := { s.st with mountpoint := some mountpoint } }
    let (connected, w) := c.livesourceConnected s.w mountpoint
    let s := { s with w := w }
    if connected = 0 then leave s 409
    else if connected < 0 then leave s 503
    else
      let s := s.record (.connected mountpoint)
      let s :=
        if s.st.clientVersion = 1 then s.record (.reply (.text (cstr "ICY 200 OK\r\n\r\n")))
        else sendResultOk s none none
      .inl (s.setState .waitStreamSource)

/-- A `POST`. -/
def postRequest (c : Caster W G) (config : Config) (s : Server W G) (uri : CString) :
    Outcome W G :=
  if isAdm uri then
    if s.st.contentLength = 0 then
      match admsrv c config s (cstr "POST") (cstr "/adm") (uri.drop 4) with
      | .error f => .inr (.error f)
      | .ok h => goOn { h with s := h.s.setState .waitHttpMethod }
    else .inl (s.setState .waitClientContent)
  else if s.st.schemeBasic = false then leave s 401
  else
    let s := { s with st := { s.st with connectionKeepalive := false, clientVersion := 2 } }
    if uri.head? ≠ some 47 then .inr (.ok (s, ⟨400, true, []⟩))
    else
      match s.st.user, s.st.password with
      | some user, some password => sourceRequest c config s uri.tail (some user) password
      | _, _ => .inr (.ok (s, ⟨401, true, []⟩))

/-- A `SOURCE`, of the first version of the protocol. -/
def oldSourceRequest (c : Caster W G) (config : Config) (s : Server W G)
    (password mountpoint : CString) : Outcome W G :=
  if s.st.nHttpArgs = 2 then leave s 400
  else
    let s := { s with st := { s.st with connectionKeepalive := false, clientVersion := 1 } }
    sourceRequest c config s (if mountpoint.head? = some 47 then mountpoint.tail else mountpoint)
      none password

/-- The request is cut at its query string, except that of an old source. -/
def cutQuery (st : NtripState G) : NtripState G :=
  match st.httpArgs with
  | [method, uri, version] =>
    if method ≠ cstr "SOURCE" ∧ 63 ∈ uri then
      { st with
        queryString := some (uri.dropWhile (· ≠ 63)).tail
        httpArgs := [method, uri.takeWhile (· ≠ 63), version] }
    else st
  | _ => st

/-- A request is handed to what answers it. -/
def dispatch (c : Caster W G) (config : Config) (s : Server W G) : Outcome W G :=
  match s.st.httpArgs with
  | [method, uri, version] =>
    if method = cstr "GET" then getRequest c config s uri
    else if method = cstr "POST" then postRequest c config s uri
    else if method = cstr "SOURCE" then oldSourceRequest c config s uri version
    else leave s 501
  | _ => leave s 501

/-- The session is made ready for the content of the request, and the request is recorded. -/
def prepare (config : Config) (s : Server W G) : Except Fault (Server W G) :=
  let st := { s.st with
    content := if s.st.contentLength ≠ 0 then some [] else s.st.content
    connectionKeepalive := s.st.clientVersion ≠ 1 ∧ s.st.connectionKeepalive }
  match if st.chunkState = .chunkInit then (ntripChunkDecodeInit st.toSession).map Prod.snd
    else some st.toSession with
  | none => .error .endlessLoop
  | some session =>
    let st := cutQuery { st with toSession := session }
    .ok ({ s with st := st }.record (.request st.httpArgs st.headers st.peer.remoteAddr config))

/-- The empty line after the headers. -/
def endHeaders (c : Caster W G) (config : Config) (s : Server W G) : Outcome W G :=
  match prepare config s with
  | .error f => .inr (.error f)
  | .ok s => dispatch c config s

/-! ### The loop -/

namespace NtripState

/-- The buffer at `st->input`, or `none` if it was freed. -/
def inputBuf (st : NtripState G) : Option (List Byte) :=
  match st.input with
  | .rawInput => some st.rawInput
  | .chunkBuf => st.chunkBuf

/-- What is left in that buffer after a read. -/
def setInput (st : NtripState G) (rest : List Byte) : NtripState G :=
  match st.input with
  | .rawInput => { st with rawInput := rest }
  | .chunkBuf => { st with chunkBuf := some rest }

/-- `ntrip_clear_request`, and what the loop clears itself. -/
def clearRequest (st : NtripState G) : NtripState G :=
  { st with
    chunkBuf := none
    chunkState := .chunkNone
    httpArgs := []
    nHttpArgs := 0
    content := none
    contentType := none
    user := none
    password := none
    queryString := none
    receivedKeepalive := false
    contentLength := 0
    mountpoint := none
    headers := [] }

end NtripState

namespace Server

/-- A line is taken off the input. -/
def takeLine (s : Server W G) (line rest : List Byte) : Server W G :=
  { s with st := { s.st.setInput rest with receivedBytes := s.st.receivedBytes + line.length + 2 } }

/-- A header is recorded. -/
def addHeader (config : Config) (s : Server W G) (key value : CString) : Server W G :=
  { s with st := { s.st with
    headers := s.st.headers ++ [⟨headerKind config key, key, value⟩] } }

/-- `ntrip_clear_request`, on the connection. -/
def clearRequest (s : Server W G) : Server W G := { s with st := s.st.clearRequest }

end Server

/-- A line is read, or the loop is left for want of one: with the error, if what is there is too
long. -/
def readLine (config : Config) (s : Server W G) (tooLong : ℕ)
    (k : Server W G → List Byte → Outcome W G) : Outcome W G :=
  match s.st.inputBuf with
  | none => .inr (.error .freedBuffer)
  | some buf =>
    match evbufferReadlnCrlf buf with
    | none => leave s (if buf.length > config.httpHeaderMaxSize then tooLong else 0)
    | some (line, rest) =>
      let s := s.takeLine line rest
      if line.length > config.httpHeaderMaxSize then leave s tooLong else k s line

/-- `NTRIP_WAIT_HTTP_METHOD`, once the line is there. -/
def methodLine (s : Server W G) (line : List Byte) : Outcome W G :=
  let args := splitArgs (toCString line)
  let st := { s.st with httpArgs := args.take 3, nHttpArgs := (args.take 3).length }
  if args.length < 2 ∨ args.length > 3 then leave { s with st := st } 400
  else
    .inl { s with st := { st with
      httpArgs := if args.length = 2 then args ++ [cstr "HTTP/0.9"] else args
      state := .waitHttpHeader
      receivedKeepalive := false } }

/-- `NTRIP_WAIT_HTTP_HEADER`, once the line is there. -/
def headerLine (c : Caster W G) (config : Config) (s : Server W G) (line : List Byte) :
    Outcome W G :=
  if line.length = 0 then endHeaders c config s
  else
    match parseHeader (toCString line) with
    | none => leave s 400
    | some (key, value) =>
      match handleHeader c config (s.addHeader config key value) key value with
      | .error f => .inr (.error f)
      | .ok (s, err) => goOn ⟨s, err, []⟩

/-- `NTRIP_WAIT_CLIENT_INPUT`. -/
def clientInput (c : Caster W G) (s : Server W G) (buf : List Byte) : Outcome W G :=
  match evbufferReadlnCrlf buf with
  | none => leave s 0
  | some (line, rest) =>
    let s := s.takeLine line rest
    match c.parseGga (toCString line) with
    | some pos =>
      .inl ({ s with st := { s.st with lastPos := some pos } }.record .redoVirtualPos)
    | none => .inl s

/-- Part of the content is taken off the input. -/
def takeContent (s : Server W G) (buf : List Byte) (len : ℕ) : Server W G :=
  { s with st := { s.st.setInput (buf.drop len) with
    content := some (s.st.content.getD [] ++ buf.take len)
    receivedBytes := s.st.receivedBytes + len } }

/-- The content is complete. -/
def endContent (c : Caster W G) (config : Config) (s : Server W G) : Outcome W G :=
  let s := s.record (.content (s.st.content.getD []))
  match s.st.httpArgs with
  | [method, uri, _] =>
    if isAdm uri then
      match admsrv c config s method (cstr "/adm") (uri.drop 4) with
      | .error f => .inr (.error f)
      | .ok h => goOn { h with s := h.s.setState .waitHttpMethod }
    else .inl (s.setState .waitHttpMethod)
  | _ => .inl (s.setState .waitHttpMethod)

/-- `NTRIP_WAIT_CLIENT_CONTENT`. -/
def clientContent (c : Caster W G) (config : Config) (s : Server W G) (buf : List Byte) :
    Outcome W G :=
  let len := min buf.length (s.st.contentLength - (s.st.content.getD []).length)
  if len = 0 then leave s 0
  else
    let s := takeContent s buf len
    if (s.st.content.getD []).length = s.st.contentLength then endContent c config s else .inl s

/-- `NTRIP_WAIT_STREAM_SOURCE`. The packets go to the subscribers of the source, as in
`rtcmPacketHandle`; here only what is left of the input matters. -/
def streamSource (s : Server W G) (buf : List Byte) : Outcome W G :=
  if s.st.chunkState = .chunkEnd then leave (s.setState .forceClose) 1
  else
    match Rtcm.rtcmPacketHandle ⟨buf, s.st.receivedBytes, [], none, []⟩ with
    | none => .inr (.error .outsidePacket)
    | some (stream, _) =>
      leave { s with st := { s.st.setInput stream.input with
        receivedBytes := stream.receivedBytes } } 0

/-- One round of the loop of `ntripsrv_readcb`, with the condition of the loop. -/
def round (c : Caster W G) (config : Config) (s : Server W G) : Outcome W G :=
  if s.st.state = .waitClose then leave s 0
  else
    match s.st.inputBuf with
    | none => .inr (.error .freedBuffer)
    | some buf =>
      if buf = [] then leave s 0
      else
        match s.st.state with
        | .waitHttpMethod => readLine config s.clearRequest 400 methodLine
        | .waitHttpHeader => readLine config s 431 (headerLine c config)
        | .waitClientInput => clientInput c s buf
        | .waitClientContent => clientContent c config s buf
        | .waitStreamSource => streamSource s buf
        | .forceClose => leave s 1
        | _ => leave (s.setState .forceClose) 1

/-- The reply to an error, if there is one. -/
def replyError (s : Server W G) (l : Leave) : Server W G :=
  let old := s.st.clientVersion = 1 ∧ l.methodPostSource
  if l.err = 401 ∧ old then s.record (.reply (.text (cstr "ERROR - Bad Password\r\n")))
  else if (l.err = 404 ∨ l.err = 409) ∧ old then
    s.record (.reply (.text (cstr "ERROR - Mount Point Taken or Invalid\r\n")))
  else if l.err ≥ 100 then sendServerReply s l.err l.headers none none
  else s

/-- What is done after the loop. -/
def afterLoop (s : Server W G) (l : Leave) : Server W G :=
  let s := if l.err ≠ 0 then (replyError s l).setState .waitClose else s
  if s.st.state = .forceClose then decrefEnd s else s

/-- The bytes a session holds: more rounds than these are never made. -/
def held (s : Server W G) : ℕ := s.st.rawInput.length + (s.st.chunkBuf.getD []).length

/-- The loop and what follows it. -/
def loop (c : Caster W G) (config : Config) (s : Server W G) : Except Fault (Server W G) :=
  match Loop.run (round c config) (held s + 1) s with
  | none => .error .endlessLoop
  | some (.error f) => .error f
  | some (.ok (s, l)) => .ok (afterLoop s l)

/-- The input filter, and whether the callback goes on after it. -/
def filterInput (s : Server W G) : Except Fault (Server W G × Bool) :=
  match ntripFilterRunInput s.st.toSession with
  | none => .error .endlessLoop
  | some (r, _, session) =>
    .ok ({ s with st := { s.st with toSession := session } }, decide (0 ≤ r))

/-- Whether a chunked body is over and nothing is left to read. -/
def bodyOver (st : NtripState G) : Bool := st.chunkState = .chunkEnd ∧ st.inputBuf = some []

/-- `ntripsrv_readcb`, with the configuration in force. -/
def ntripsrvReadcb (c : Caster W G) (config : Config) (s : Server W G) :
    Except Fault (Server W G) :=
  match filterInput s with
  | .error f => .error f
  | .ok (s, false) => .ok s
  | .ok (s, true) =>
    if bodyOver s.st then .ok (afterLoop (s.setState .forceClose) ⟨1, false, []⟩)
    else loop c config s

/-! ### A connection -/

/-- What happens on a connection. -/
inductive Label (W : Type)
  /-- bytes are received, and the callback is called with the configuration in force -/
  | read (config : Config) (bytes : List Byte)
  /-- a worker runs one of the jobs queued -/
  | job (i : ℕ)
  /-- the write callback, with nothing left to send -/
  | written
  /-- the end of the connection: `ntripsrv_eventcb`, or a drop by an administrator -/
  | hangup
  /-- the rest of the caster moves on -/
  | caster (w : W)

namespace Server

/-- Bytes reach the raw buffer. -/
def receive (s : Server W G) (bytes : List Byte) : Server W G :=
  { s with st := { s.st with rawInput := s.st.rawInput ++ bytes } }

/-- One step. An ended session is left alone. -/
def step (c : Caster W G) (s : Server W G) : Label W → Except Fault (Server W G)
  | .read config bytes =>
    if s.st.state = .ntripEnd then .ok s else ntripsrvReadcb c config (s.receive bytes)
  | .job i =>
    match s.jobs[i]? with
    | none => .ok s
    | some job => deferredOutput c { s with jobs := s.jobs.eraseIdx i } job.contentCb job.req
  | .written => .ok (if s.st.state = .waitClose then decrefEnd s else s)
  | .hangup => .ok (decrefEnd s)
  | .caster w => .ok { s with w := w }

/-- The step as a partial function, for runs without faults. -/
def stepOk (c : Caster W G) (s : Server W G) (l : Label W) : Option (Server W G) :=
  (s.step c l).toOption

/-- A connection that has just been accepted, and is within its quota. -/
def accepted (peer : Peer) (w : W) (ipcount : HashTable ℤ) : Server W G where
  st := .new G peer
  w := w
  ipcount := ipcount
  jobs := []
  log := []

end Server

/-! ### A small caster

The runs that are given explicitly are runs of this caster: it has no source, and one
administrator. -/

/-- The configuration of the small caster. -/
def smallConfig : Config where
  httpHeaderMaxSize := 8192
  httpContentLengthMax := 4000000
  adminUser := cstr "admin"
  sourceAuth := some [⟨cstr "admin", cstr "a", cstr "b"⟩]
  roverAuthFilename := none
  roverAuth := none
  userAuth := none
  syncerAuth := none
  trustedHttpProxyPrefixes := []
  trustedHttpIpHeader := none
  blocklist := none
  webroots := []
  uiDir := none

/-- The small caster, with or without threads. -/
def smallCaster (threads : Bool) : Caster Unit Unit where
  threads := threads
  configDir := []
  sourcetableGet := fun _ => some (cstr "ENDSOURCETABLE\r\n")
  stackFindMountpoint := fun _ _ => none
  stackFindLocalMountpoint := fun _ _ => none
  livesourceFindAndSubscribe := fun _ _ _ => (false, ())
  livesourceConnected := fun _ _ => (0, ())
  contentCb := fun _ _ _ => ⟨200, some ⟨some (cstr "application/json"), []⟩, ()⟩
  dropsItself := fun _ _ => false
  mallocStatsDump := fun _ _ => none
  readFile := fun _ _ => .noFile
  jsonTokenerParse := fun _ => false
  parseGga := fun _ => none

/-- A client of the small caster. -/
def smallPeer : Peer := ⟨true, .quad 10 0 0 1, cstr "10.0.0.1"⟩

/-- Its connection. -/
def smallServer : Server Unit Unit := .accepted smallPeer () (.new 509 HashTable.zero_lt_509)

end Ntripsrv

end ChilopodCaster
