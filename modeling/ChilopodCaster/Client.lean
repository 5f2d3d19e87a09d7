import ChilopodCaster.ChunkDecode
import ChilopodCaster.Http
import ChilopodCaster.Rtcm.Framing
import ChilopodCaster.SourcetableFetch
import ChilopodCaster.Task
import Mathlib.Logic.Function.Basic

/-!
# Outgoing sessions

The caster connects to other servers for four kinds of tasks: a sourcetable fetcher, a syncer, a
Graylog sender and a source fetcher. A task starts one session at a time (`ntripcli.c`). The two
point at each other, `task->st` and `st->task`; when the session ends, `end_cb` of the task clears
both pointers and schedules the next start.

A callback runs with the lock of its session, so it is one step. In threaded mode it is a job, which
is dropped if the session has ended. The references that jobs hold on a session are left out: there
are some in threaded mode only. The timeouts are left out too, since they may come at any time, and
so is the output: only that a request was sent matters here. Allocations succeed.

## Main definitions

* `NtripState`, `ClientTask`, `Client` — a session, a task, and a task with all its sessions
* `Client.readcb`, `Client.eventcb` — the callbacks of `ntripcli.c`
* `Client.step` — what happens to a task and its sessions; `none` where an assertion fails or freed
  memory is read
-/

namespace ChilopodCaster

namespace Ntripcli

open ChunkDecode

/-! ### Sessions and tasks -/

/-- The fields of `struct config` that a client session reads. -/
structure Config where
  httpHeaderMaxSize : ℕ
  httpContentLengthMax : ℕ
  idleMaxDelay : ℤ
  deriving DecidableEq, Repr

/-- The fields of `struct ntrip_state` that a client session uses. The last two are not in the
source: how many times `end_cb` was called for the session, and whether `ntrip_task_stop` ended
it. -/
structure NtripState extends Session where
  httpArgs : List CString
  statusCode : BitVec 16
  mountpoint : CString
  contentLength : ℕ
  contentDone : ℕ
  contentType : Option CString
  connectionKeepalive : Bool
  receivedKeepalive : Bool
  persistent : Bool
  /-- whether `own_livesource` is set -/
  ownLivesource : Bool
  lastUseful : ℤ
  /-- whether `task` is set -/
  task : Bool
  refcnt : ℕ
  endCbs : ℕ
  stopped : Bool
  deriving DecidableEq, Repr

/-- Whose task it is, which tells its callbacks. -/
inductive TaskOwner (F : Type)
  /-- `struct sourcetable_fetch_args`, and the table that `sourcetable_new` makes for it -/
  | sourcetableFetcher (new : Sourcetable F) (args : SourcetableFetchArgs F)
  | syncer
  | graylogSender
  /-- `struct redistribute_cb_args` -/
  | sourceFetcher (mountpoint : CString) (persistent : Bool)

namespace TaskOwner

variable {F : Type}

/-- `task->use_mimeq`, which goes with `task->connection_keepalive`. -/
def useMimeq : TaskOwner F → Bool
  | .syncer => true
  | .graylogSender => true
  | _ => false

/-- Whether `task->line_cb` is set. -/
def hasLineCb : TaskOwner F → Bool
  | .sourcetableFetcher _ _ => true
  | _ => false

end TaskOwner

/-- The fields of `struct ntrip_task` for its queue and its sessions. -/
structure ClientTask (F : Type) extends Task where
  /-- the rank of the session at `task->st` -/
  st : Option ℕ
  /-- whether a start is scheduled -/
  ev : Bool
  refreshDelay : ℕ
  owner : TaskOwner F
  /-- how many items were allocated -/
  allocated : ℕ
  /-- whether the task was freed -/
  freed : Bool

/-- A task, and the sessions it has started. -/
structure Client (F : Type) where
  task : ClientTask F
  /-- each session, by its rank -/
  heap : ℕ → NtripState
  /-- how many sessions were started -/
  next : ℕ

/-- What a callback asks of the rest of the caster. -/
structure Env (F : Type) where
  config : Config
  time : ℤ
  timeOfDay : Timeval
  scanFloat : CString → Option F
  text : Json → CString
  /-- the text of `livesource_checkserial_json` -/
  checkserial : Packet
  /-- the text of `livesource_full_update_json` -/
  full : Packet
  /-- whether `livesource_send_subscribers` has subscribers to send a packet to -/
  sendSubscribers : Packet → Bool
  /-- whether a source fetcher finds where to connect to -/
  pullable : Bool

/-! ### Operations on a session -/

namespace NtripState

/-- `ntrip_new` and `ntripcli_new`, with the references of the connection and of the task. -/
def new {F : Type} (owner : TaskOwner F) (time : ℤ) : NtripState where
  rawInput := []
  chunkBuf := none
  input := .rawInput
  inFilter := false
  chunkState := .chunkNone
  chunkLen := 0
  receivedBytes := 0
  state := .init
  httpArgs := []
  statusCode := 0
  mountpoint := match owner with
    | .sourceFetcher mountpoint _ => mountpoint
    | _ => []
  contentLength := 0
  contentDone := 0
  contentType := none
  connectionKeepalive := owner.useMimeq
  receivedKeepalive := false
  persistent := match owner with
    | .sourceFetcher _ persistent => persistent
    | _ => false
  ownLivesource := match owner with
    | .sourceFetcher _ _ => true
    | _ => false
  lastUseful := time
  task := true
  refcnt := 2
  endCbs := 0
  stopped := false

/-- `ntrip_decref`. With no reference left, the callbacks of the session are removed. -/
def decref (st : NtripState) : NtripState := { st with refcnt := st.refcnt - 1 }

/-- `ntrip_decref_end`. -/
def decrefEnd (st : NtripState) : NtripState :=
  if st.state = .ntripEnd then st
  else { st with toSession := ntripDecrefEnd st.toSession, ownLivesource := false }.decref

/-- The end of a session by `ntrip_task_stop`, which drops the reference of the task too. -/
def stopEnd (st : NtripState) : NtripState :=
  { st.decrefEnd.decref with stopped := st.stopped || decide (st.state ≠ .ntripEnd) }

/-- The buffer at `st->input`, or `none` if it was freed. -/
def inputBuf (st : NtripState) : Option (List Byte) :=
  match st.input with
  | .rawInput => some st.rawInput
  | .chunkBuf => st.chunkBuf

/-- What is left in that buffer after a read. -/
def setInput (st : NtripState) (rest : List Byte) : NtripState :=
  match st.input with
  | .rawInput => { st with rawInput := rest }
  | .chunkBuf => { st with chunkBuf := some rest }

/-- A line is taken off the input. -/
def takeLine (st : NtripState) (line rest : List Byte) : NtripState :=
  { st.setInput rest with receivedBytes := st.receivedBytes + line.length + 2 }

/-- Part of the content is taken off the input. -/
def takeContent (st : NtripState) (buf : List Byte) (len : ℕ) : NtripState :=
  { st.setInput (buf.drop len) with
    receivedBytes := st.receivedBytes + len
    contentDone := st.contentDone + len }

/-- `ntrip_clear_request`. -/
def clearRequest (st : NtripState) : NtripState :=
  { st with
    chunkBuf := none
    chunkState := .chunkNone
    httpArgs := []
    contentType := none
    receivedKeepalive := false
    contentLength := 0
    contentDone := 0 }

/-- Bytes reach the raw buffer. -/
def receive (st : NtripState) (bytes : List Byte) : NtripState :=
  { st with rawInput := st.rawInput ++ bytes }

/-- `ntrip_filter_run_input`, with whether the callback goes on after it. -/
def filterRunInput (st : NtripState) : Option (NtripState × Bool) :=
  if st.inFilter then
    (ntripChunkDecode st.toSession).map fun
      | (.bevNeedMore, session) => ({ st with toSession := session }, false)
      | (.bevError, session) => ({ st with toSession := session }.decrefEnd, false)
      | (.bevOk, session) => ({ st with toSession := session }, true)
  else some (st, true)

end NtripState

namespace Client

variable {F : Type}

/-- A session is written. -/
def setSt (s : Client F) (i : ℕ) (st : NtripState) : Client F :=
  { s with heap := Function.update s.heap i st }

/-- A session is changed. -/
def modifySt (s : Client F) (i : ℕ) (f : NtripState → NtripState) : Client F :=
  s.setSt i (f (s.heap i))

/-- `ntrip_set_state`. -/
def setState (s : Client F) (i : ℕ) (state : SessionState) : Client F :=
  s.modifySt i fun st => { st with state := state }

/-- The queue of the task is changed. -/
def setQueue (s : Client F) (queue : Task) : Client F :=
  { s with task := { s.task with toTask := queue } }

/-- What the owner of the task keeps is changed. -/
def setOwner (s : Client F) (owner : TaskOwner F) : Client F :=
  { s with task := { s.task with owner := owner } }

/-! ### Operations on a task -/

/-- `ntrip_task_clear_get_st`. -/
def clearGetSt (s : Client F) : Client F :=
  match s.task.st with
  | none => s
  | some j =>
    { s with task := { s.task with st := none } }.modifySt j fun st => { st with task := false }

/-- `ntrip_task_clear_st`. -/
def clearSt (s : Client F) : Client F :=
  match s.task.st with
  | none => s
  | some j => s.clearGetSt.modifySt j NtripState.decref

/-- `ntrip_task_reschedule`. -/
def reschedule (s : Client F) : Client F :=
  if s.task.state = .taskEnd then s
  else
    { s with task := { s.task with
      toTask := s.task.toTask.reschedule
      ev := s.task.ev || decide (s.task.refreshDelay ≠ 0) } }

/-- `ntrip_task_stop`, once the task has ended: its session is ended too. -/
def stopSt (s : Client F) : Client F :=
  match s.task.st with
  | none => s
  | some j => s.clearGetSt.modifySt j NtripState.stopEnd

/-- `ntrip_task_stop`. -/
def taskStop (s : Client F) : Client F :=
  if s.task.state = .taskEnd then s
  else stopSt { s with task := { s.task with toTask := s.task.toTask.stop, ev := false } }

/-- `redistribute_args_free`, on its task. -/
def freeTask (s : Client F) : Client F :=
  let s := s.taskStop
  { s with task := { s.task with freed := true } }

/-- `ntrip_task_send_next_request`. -/
def sendNextRequest (s : Client F) (i : ℕ) : Option (Client F) :=
  if (s.heap i).state ≠ .idleClient then none
  else s.task.toTask.sendNextRequest.map fun r =>
    match r.2 with
    | none => s.setQueue r.1
    | some _ => (s.setQueue r.1).setState i .waitHttpStatus

/-- The item goes to the queue, unless it is too large. -/
def insertItem (s : Client F) (queue : Task) (m : MimeContent) : Client F :=
  { s with task := { s.task with
    toTask := if queue.Oversize m then queue else queue.insert m
    allocated := m.serial + 1 } }

/-- An idle session sends the item. -/
def sendIfIdle (s : Client F) : Option (Client F) :=
  match s.task.st with
  | none => some s
  | some j => if (s.heap j).state = .idleClient then s.sendNextRequest j else some s

/-- `ntrip_task_queue`, by one thread. -/
def taskQueue (s : Client F) (packet : Packet) : Option (Client F) :=
  if s.task.state = .taskEnd then some s
  else
    let m : MimeContent := ⟨s.task.allocated, packet⟩
    let queue := if s.task.Overflows m then s.task.toTask.drainQueue.map Prod.fst
      else some s.task.toTask
    queue.bind fun queue => (s.insertItem queue m).sendIfIdle

/-- `ntrip_task_ack_pending`. -/
def ackPending (s : Client F) : Option (Client F) :=
  s.task.toTask.ackPending.map fun r => s.setQueue r.1

/-- `ntrip_task_start`. -/
def taskStart (s : Client F) (env : Env F) : Option (Client F) :=
  if s.task.st.isSome then none
  else some
    { task := { s.task with state := .taskRunning, st := some s.next }
      heap := Function.update s.heap s.next (.new s.task.owner env.time)
      next := s.next + 1 }

/-- `fetcher_sourcetable_start`, `syncer_start`, `graylog_sender_start` and
`redistribute_source_stream`. -/
def start (s : Client F) (env : Env F) : Option (Client F) :=
  match s.task.owner with
  | .sourcetableFetcher new args =>
    if args.sourcetable.isSome then none
    else (s.setOwner (.sourcetableFetcher new { args with sourcetable := some new })).taskStart env
  | .syncer => (s.taskQueue env.full).bind fun s => s.taskStart env
  | .graylogSender => s.taskStart env
  | .sourceFetcher _ _ => if env.pullable then s.taskStart env else some s.freeTask

/-! ### The callbacks of a task -/

/-- `end_cb`, as `ntrip_notify_close` calls it. -/
def endCb (s : Client F) (env : Env F) : Option (Client F) :=
  match s.task.owner with
  | .sourcetableFetcher new args =>
    some (s.setOwner (.sourcetableFetcher new (args.sourcetableEndCb false))).clearSt.reschedule
  | .syncer => (s.clearSt.taskQueue env.checkserial).map reschedule
  | .graylogSender => some s.clearSt.reschedule
  | .sourceFetcher _ persistent =>
    match s.task.st with
    | none => some s
    | some j =>
      let own := (s.heap j).ownLivesource
      let s := s.clearGetSt
      let s :=
        if own then
          if persistent then s.reschedule
          else (s.modifySt j fun st => { st with ownLivesource := false }).freeTask
        else s
      some (s.modifySt j NtripState.decref)

/-- `ntrip_notify_close`. -/
def notifyClose (s : Client F) (env : Env F) (i : ℕ) : Option (Client F) :=
  if (s.heap i).task then
    (s.endCb env).map fun s =>
      s.modifySt i fun st => { st with task := false, endCbs := st.endCbs + 1 }
  else some s

/-- `line_cb`, with what it returns. -/
def lineCb (s : Client F) (env : Env F) (i : ℕ) (line : CString) : Option (Client F × Bool) :=
  match s.task.owner with
  | .sourcetableFetcher new args =>
    let r := args.sourcetableLineCb env.scanFloat env.text env.timeOfDay line
    let s := s.setOwner (.sourcetableFetcher new r.1)
    -- the rest of `sourcetable_end_cb`, where the line made it called
    if r.1.ended = args.ended then some (s, r.2)
    else some (s.clearSt.reschedule.modifySt i fun st => { st with endCbs := st.endCbs + 1 }, r.2)
  | _ => none

/-- `status_cb`. -/
def statusCb (s : Client F) (env : Env F) (i : ℕ) (status : BitVec 32) : Option (Client F) :=
  if (s.heap i).task then
    match s.task.owner with
    | .syncer =>
      s.task.st.bind fun j =>
        s.ackPending.bind fun s =>
          if (s.heap j).statusCode ≠ 200 then s.taskQueue env.full else some s
    | .graylogSender =>
      s.task.st.bind fun j =>
        let s := if status = 202 then s.modifySt j fun st => { st with statusCode := 200 } else s
        if (s.heap j).statusCode = 200 then s.ackPending else some s
    | _ => some s
  else some s

/-! ### The loop of `ntripcli_readcb` -/

/-- What a round comes to: another round, or the end of the loop with `end`; `none` is a failed
assertion or a read of freed memory. -/
abbrev Outcome (F : Type) := Client F ⊕ Option (Client F × Bool)

/-- The loop is left. -/
def leave (s : Client F) (fin : Bool) : Outcome F := .inr (some (s, fin))

/-- Another round, if nothing failed. -/
def goOn : Option (Client F) → Outcome F
  | none => .inr none
  | some s => .inl s

/-- A line is read, or the loop is left for want of one. -/
def readLine (s : Client F) (env : Env F) (i : ℕ) (k : Client F → List Byte → Outcome F) :
    Outcome F :=
  match (s.heap i).inputBuf with
  | none => .inr none
  | some buf =>
    match evbufferReadlnCrlf buf with
    | none => leave s (decide (buf.length > env.config.httpHeaderMaxSize))
    | some (line, rest) =>
      let s := s.modifySt i fun st => st.takeLine line rest
      if line.length > env.config.httpHeaderMaxSize then leave s true else k s line

/-- `NTRIP_WAIT_HTTP_STATUS`, once the status is known. -/
def gotStatus (s : Client F) (env : Env F) (i : ℕ) (icy : Bool) (status : BitVec 32) :
    Outcome F :=
  let s := s.modifySt i fun st => { st with statusCode := status.truncate 16 }
  let s := if icy ∧ (s.heap i).mountpoint = [] ∧ status = 200 then s.setState i .registerSource
    else s
  match s.statusCb env i status with
  | none => .inr none
  | some s =>
    if (s.heap i).statusCode = 200 then .inl (s.setState i .waitHttpHeader) else leave s true

/-- `NTRIP_WAIT_HTTP_STATUS`, once the line is there. -/
def statusLine (s : Client F) (env : Env F) (i : ℕ) (line : List Byte) : Outcome F :=
  let args := (splitArgs (toCString line)).take 3
  let s := s.modifySt i fun st => { st with httpArgs := args }
  if args.head? = some (cstr "ERROR") then leave s true
  else
    match args with
    | _ :: status :: _ =>
      if status.length ≠ 3 then leave s true
      else
        match sscanfLu status with
        | none => leave s true
        | some n => s.gotStatus env i (args.head? = some (cstr "ICY")) (.ofNat 32 n)
    | _ => leave s true

/-- The end of a reply: the session is idle again if it is kept. -/
def replyOver (s : Client F) (i : ℕ) : Outcome F :=
  if (s.heap i).connectionKeepalive ∧ (s.heap i).receivedKeepalive then
    let s := s.setState i .idleClient
    if (s.heap i).task then goOn (s.sendNextRequest i) else .inl s
  else leave s true

/-- The end of the headers, once the chunk decoder is set up. -/
def afterHeaders (s : Client F) (i : ℕ) : Outcome F :=
  let st := s.heap i
  if st.mountpoint ≠ [] then .inl (s.setState i .registerSource)
  else if st.task ∧ s.task.owner.hasLineCb then .inl (s.setState i .waitCallbackLine)
  else if st.contentLength ≠ 0 then .inl (s.setState i .waitServerContent)
  else if st.chunkState ≠ .chunkNone ∧ st.chunkState ≠ .chunkEnd then
    .inl (s.setState i .waitChunkedContent)
  else s.replyOver i

/-- The end of the headers. -/
def endHeaders (s : Client F) (i : ℕ) : Outcome F :=
  if (s.heap i).chunkState = .chunkInit then
    match ntripChunkDecodeInit (s.heap i).toSession with
    | none => .inr none
    | some (_, session) => (s.modifySt i fun st => { st with toSession := session }).afterHeaders i
  else s.afterHeaders i

/-- What a header does. -/
def setHeader (s : Client F) (env : Env F) (i : ℕ) (key value : CString) : Outcome F :=
  if ¬ strcasecmp key (cstr "transfer-encoding") then
    if ¬ strcasecmp value (cstr "chunked") then
      .inl (s.modifySt i fun st => { st with chunkState := .chunkInit })
    else .inl s
  else if ¬ strcasecmp key (cstr "connection") then
    if ¬ strcasecmp value (cstr "keep-alive") then
      .inl (s.modifySt i fun st => { st with receivedKeepalive := true })
    else .inl s
  else if ¬ strcasecmp key (cstr "content-length") then
    match sscanfLu value with
    | none => .inl s
    | some contentLength =>
      if contentLength > env.config.httpContentLengthMax then leave s true
      else .inl (s.modifySt i fun st =>
        { st with contentLength := contentLength, contentDone := 0 })
  else if ¬ strcasecmp key (cstr "content-type") then
    .inl (s.modifySt i fun st => { st with contentType := some value })
  else .inl s

/-- `NTRIP_WAIT_HTTP_HEADER`, once the line is there. -/
def headerLine (s : Client F) (env : Env F) (i : ℕ) (line : List Byte) : Outcome F :=
  if line.length = 0 then s.endHeaders i
  else
    match parseHeader (toCString line) with
    | none => leave s true
    | some (key, value) => s.setHeader env i key value

/-- `NTRIP_WAIT_CALLBACK_LINE`. -/
def callbackLine (s : Client F) (env : Env F) (i : ℕ) (buf : List Byte) : Outcome F :=
  match evbufferReadlnCrlf buf with
  | none => leave s false
  | some (line, rest) =>
    let s := s.modifySt i fun st =>
      { st.takeLine line rest with receivedBytes := st.receivedBytes + line.length + 2 +
        (line.length + 1) }
    if (s.heap i).task then
      match s.lineCb env i (toCString line) with
      | none => .inr none
      | some (s, true) => leave (s.modifySt i fun st => { st with task := false }) true
      | some (s, false) => .inl s
    else .inl s

/-- `NTRIP_WAIT_SERVER_CONTENT`. No more than `content_length` bytes are counted as done. -/
def serverContent (s : Client F) (i : ℕ) (buf : List Byte) : Outcome F :=
  let len := min buf.length ((s.heap i).contentLength - (s.heap i).contentDone)
  let s := s.modifySt i fun st => st.takeContent buf len
  if (s.heap i).contentLength = (s.heap i).contentDone then s.replyOver i else leave s true

/-- `NTRIP_WAIT_CHUNKED_CONTENT`. -/
def chunkedContent (s : Client F) (i : ℕ) (buf : List Byte) : Outcome F :=
  if (s.heap i).chunkState = .chunkEnd then s.replyOver i
  else .inl (s.modifySt i fun st => st.takeContent buf buf.length)

/-- `NTRIP_IDLE_CLIENT`. -/
def idleClient (s : Client F) (i : ℕ) (buf : List Byte) : Outcome F :=
  leave (s.modifySt i fun st =>
    { st.setInput (buf.drop 64) with receivedBytes := st.receivedBytes + buf.length }) true

/-- `NTRIP_WAIT_STREAM_GET`. The packets go to the subscribers of the source, as in
`rtcmPacketHandle`; here only what is left of the input and whether some were sent matter. -/
def streamGet (s : Client F) (env : Env F) (i : ℕ) (buf : List Byte) : Outcome F :=
  match Rtcm.rtcmPacketHandle ⟨buf, (s.heap i).receivedBytes, [], none, []⟩ with
  | none => .inr none
  | some (stream, r) =>
    let s := s.modifySt i fun st =>
      { st.setInput stream.input with
        receivedBytes := stream.receivedBytes
        lastUseful := if stream.sent.any env.sendSubscribers then env.time else st.lastUseful }
    if (s.heap i).persistent ∨ r = false then leave s false
    else if env.time - (s.heap i).lastUseful > env.config.idleMaxDelay then leave s true
    else .inl s

/-- One round of the loop, with its condition. -/
def round (env : Env F) (i : ℕ) (s : Client F) : Outcome F :=
  if (s.heap i).state = .waitClose then leave s false
  else
    match (s.heap i).inputBuf with
    | none => .inr none
    | some buf =>
      if buf = [] then leave s false
      else
        match (s.heap i).state with
        | .waitHttpStatus =>
          (s.modifySt i NtripState.clearRequest).readLine env i fun s line =>
            s.statusLine env i line
        | .waitHttpHeader => s.readLine env i fun s line => s.headerLine env i line
        | .waitCallbackLine => s.callbackLine env i buf
        | .waitServerContent => s.serverContent i buf
        | .waitChunkedContent => s.chunkedContent i buf
        | .idleClient => s.idleClient i buf
        | .registerSource => .inl (s.setState i .waitStreamGet)
        | .waitStreamGet => s.streamGet env i buf
        | .forceClose => leave s true
        | _ => leave (s.setState i .forceClose) true

/-- The states that a round may leave without a read. -/
def rank : SessionState → ℕ
  | .waitServerContent => 1
  | .waitChunkedContent => 1
  | .registerSource => 1
  | _ => 0

/-- A bound on the rounds to come. -/
def rounds (st : NtripState) : ℕ := 2 * buffered st.toSession + rank st.state

/-- The end of a session: its task is notified, and what is left of its input is logged. -/
def closeSession (s : Client F) (env : Env F) (i : ℕ) : Option (Client F) :=
  (s.notifyClose env i).bind fun s =>
    if (s.heap i).inputBuf = none then none else some (s.modifySt i NtripState.decrefEnd)

/-- The loop, with the value of `end` after it. -/
def loop (env : Env F) (i : ℕ) (s : Client F) : Option (Client F × Bool) :=
  (Loop.run (round env i) (rounds (s.heap i) + 1) s).join

/-- `ntripcli_readcb`. -/
def readcb (s : Client F) (env : Env F) (i : ℕ) : Option (Client F) :=
  (s.heap i).filterRunInput.bind fun r =>
    let s := s.setSt i r.1
    if r.2 then
      (loop env i s).bind fun l => if l.2 then l.1.closeSession env i else some l.1
    else some s

/-! ### The other callbacks -/

/-- `connect_cb`, or the request alone without it. -/
def connected (s : Client F) (i : ℕ) : Option (Client F) :=
  if (s.heap i).task ∧ s.task.owner.useMimeq then (s.setState i .idleClient).sendNextRequest i
  else some (s.setState i .waitHttpStatus)

/-- `ntripcli_eventcb`: the connection is made, or it ends. -/
def eventcb (s : Client F) (env : Env F) (i : ℕ) (isConnected : Bool) : Option (Client F) :=
  if isConnected then s.connected i else s.closeSession env i

/-- `ntrip_drop_by_id`, for a session. -/
def drop (s : Client F) (env : Env F) (i : ℕ) : Option (Client F) :=
  (s.notifyClose env i).map fun s => s.modifySt i NtripState.decrefEnd

/-- The task is stopped: `fetcher_sourcetable_stop` clears its table too. -/
def stop (s : Client F) : Client F :=
  let s := s.taskStop
  match s.task.owner with
  | .sourcetableFetcher new args =>
    s.setOwner (.sourcetableFetcher new { args with sourcetable := none })
  | _ => s

end Client

/-! ### Runs -/

/-- What happens to a task and its sessions. -/
inductive Event
  /-- bytes are received, and the read callback is called -/
  | read (i : ℕ) (bytes : List Byte)
  /-- a connection event: connected, or an end, an error or a timeout -/
  | event (i : ℕ) (isConnected : Bool)
  /-- a drop by an administrator -/
  | drop (i : ℕ)
  /-- the task is stopped -/
  | stop
  /-- the time of a start that was scheduled -/
  | timer
  /-- an item is queued -/
  | queue (packet : Packet)
  /-- a task that is not running is started -/
  | start
  deriving DecidableEq, Repr

namespace Client

variable {F : Type}

/-- A task that was just created. -/
def new (owner : TaskOwner F) (refreshDelay bulkMaxSize queueMaxSize : ℕ) : Client F where
  task :=
    { toTask := .new bulkMaxSize queueMaxSize
      st := none
      ev := false
      refreshDelay := refreshDelay
      owner := owner
      allocated := 0
      freed := false }
  heap := fun _ => .new owner 0
  next := 0

/-- A callback is called on a session that has its callbacks, and that has not ended if callbacks
are jobs. -/
def callback (threads : Bool) (s : Client F) (i : ℕ) (f : Client F → Option (Client F)) :
    Option (Client F) :=
  if s.next ≤ i ∨ (s.heap i).refcnt = 0 ∨ threads ∧ (s.heap i).state = .ntripEnd then some s
  else f s

/-- One step. -/
def step (threads : Bool) (s : Client F) : Env F × Event → Option (Client F)
  | (env, .read i bytes) =>
    callback threads s i fun s => (s.modifySt i fun st => st.receive bytes).readcb env i
  | (env, .event i isConnected) => callback threads s i fun s => s.eventcb env i isConnected
  | (env, .drop i) => if i < s.next then s.drop env i else some s
  | (_, .stop) => some s.stop
  | (env, .timer) =>
    if s.task.ev then { s with task := { s.task with ev := false } }.start env else some s
  | (_, .queue packet) => s.taskQueue packet
  | (env, .start) =>
    if s.task.state = .taskRunning ∨ s.task.freed then some s else s.start env

end Client

end Ntripcli

end ChilopodCaster
