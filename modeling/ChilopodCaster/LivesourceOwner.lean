import ChilopodCaster.Lib.Transition
import ChilopodCaster.LivesourceSync
import ChilopodCaster.Session
import ChilopodCaster.SourcetableStack

/-!
# Who owns a livesource

A livesource is run by the session that has it in its field `own_livesource`: a source that has
connected, or a client session that fetches a stream from another caster. For a source on demand
the livesource is made first; a job is queued for it, which starts the session. When the session
ends, or its task is told that it does, the field is cleared and a job is queued that takes the
livesource out of the table.

The jobs in question are independent of each other, and a worker may be late in running the one it
has taken; so the jobs that are not done are a list from which any one may be next. Allocations may
fail, and connections may not start; each step says how it goes.

## Main definitions

* `SourceSystem` — the table of livesources, the sessions that own some, and the jobs
* `SourceSystem.step` — the steps of the system
* `SourceSystem.Reachable` — the states of all runs
-/

namespace ChilopodCaster

/-- `struct redistribute_cb_args`, less its task; `endpoint` is `none` if its host is null. -/
structure RedistributeArgs where
  livesource : ℕ
  mountpoint : CString
  endpoint : Option Endpoint
  persistent : Bool
  deriving DecidableEq, Repr

/-- The fields of `struct ntrip_state` that have to do with the livesource of a session. A session
and the task it runs for point to each other. -/
structure SourceSession where
  client : Bool
  state : SessionState
  ownLivesource : Option ℕ
  task : Option RedistributeArgs
  deriving DecidableEq, Repr

/-- The independent jobs for livesources. The argument of the first one may be a null pointer. -/
inductive SourceJob
  | redistributeSourceStream (redisArgs : Option RedistributeArgs)
  | livesourceDelDummy (st livesource : ℕ)
  deriving DecidableEq, Repr

/-- The allocation that fails when a livesource is made on demand, if any: that of the livesource or
of its entry in the table, that of the arguments of the job, or that of the job. -/
inductive OnDemandFailure
  | none
  | livesource
  | redisArgs
  | job
  deriving DecidableEq, Repr

/-- The job that is queued for a new livesource. -/
def OnDemandFailure.jobs (redisArgs : RedistributeArgs) : OnDemandFailure → List SourceJob
  | .redisArgs => [.redistributeSourceStream .none]
  | .job => []
  | _ => [.redistributeSourceStream (some redisArgs)]

/-- How a fetch goes once its host is known: the task is started, or there is no memory for it, or
`ntrip_task_start` returns -1. -/
inductive FetchStart
  | started
  | noMemory
  | failed
  deriving DecidableEq, Repr

/-- The part of `struct caster_state` that livesources come from and go to. Sessions are addressed
by their index. -/
structure SourceSystem (F : Type) where
  livesources : Livesources
  sourcetablestack : Stack F
  sessions : List SourceSession
  /-- the jobs that are queued, or that a worker has taken and not begun -/
  jobs : List SourceJob
  /-- the tasks that `ntrip_task_reschedule` has set a timer for -/
  timers : List RedistributeArgs
  /-- the livesources that `livesource_del` was called for -/
  deleted : List ℕ

namespace SourceSystem

variable {F : Type}

/-- A caster that starts. -/
def new (hostname startDate : CString) (stack : Stack F) : SourceSystem F where
  livesources := Livesources.new hostname startDate
  sourcetablestack := stack
  sessions := []
  jobs := []
  timers := []
  deleted := []

/-- The field `own_livesource` of a session. -/
def ownLivesource (this : SourceSystem F) (st : ℕ) : Option ℕ :=
  this.sessions[st]?.bind SourceSession.ownLivesource

/-- `ntrip_unregister_livesource`. Without memory the job is not queued. -/
def ntripUnregisterLivesource (this : SourceSystem F) (st : ℕ) (memory : Bool) : SourceSystem F :=
  match this.ownLivesource st with
  | none => this
  | some livesource =>
    { this with
      sessions := this.sessions.modify st fun s => { s with ownLivesource := none }
      jobs := this.jobs ++ if memory then [.livesourceDelDummy st livesource] else [] }

/-- `ntrip_decref_end`. -/
def ntripDecrefEnd (this : SourceSystem F) (st : ℕ) (memory : Bool) : SourceSystem F :=
  if this.sessions[st]?.any (·.state = .ntripEnd) then this
  else ntripUnregisterLivesource
    { this with sessions := this.sessions.modify st fun s => { s with state := .ntripEnd } }
    st memory

/-- `redistribute_end_cb`, for a transfer that is not ok; the session is that of the task. -/
def redistributeEndCb (this : SourceSystem F) (st : ℕ) (redisArgs : RedistributeArgs)
    (memory : Bool) : Option (SourceSystem F) :=
  let this :=
    { this with sessions := this.sessions.modify st fun s => { s with task := none } }
  if (this.ownLivesource st).isSome then
    if redisArgs.persistent then
      (this.livesources.setState redisArgs.livesource .fetchPending).map fun r =>
        { this with livesources := r.1, timers := this.timers ++ [redisArgs] }
    else some (this.ntripUnregisterLivesource st memory)
  else some this

/-- `ntrip_notify_close`. -/
def ntripNotifyClose (this : SourceSystem F) (st : ℕ) (memory : Bool) :
    Option (SourceSystem F) :=
  match this.sessions[st]? with
  | none => none
  | some s =>
    if !s.client then some this
    else match s.task with
      | none => some this
      | some redisArgs => this.redistributeEndCb st redisArgs memory

/-- There is a host to fetch the stream from: that of the endpoint, or that of a table in which
`stack_find_pullable` finds the mountpoint. -/
def HasHost (this : SourceSystem F) (redisArgs : RedistributeArgs) : Prop :=
  redisArgs.endpoint.isSome ∨ (this.sourcetablestack.findPullable redisArgs.mountpoint).isSome

instance (this : SourceSystem F) (redisArgs : RedistributeArgs) :
    Decidable (this.HasHost redisArgs) := inferInstanceAs (Decidable (_ ∨ _))

/-- `redistribute_source_stream`. If all goes well, `ntripcli_new` makes a session that owns the
livesource. -/
def redistributeSourceStream (this : SourceSystem F) (redisArgs : RedistributeArgs)
    (start : FetchStart) : SourceSystem F :=
  if this.HasHost redisArgs ∧ start = .started then
    { this with
      sessions := this.sessions ++ [⟨true, .init, some redisArgs.livesource, some redisArgs⟩] }
  else this

/-- A job that a worker runs. A null pointer is dereferenced. -/
def runJob (this : SourceSystem F) (start : FetchStart) : SourceJob → Option (SourceSystem F)
  | .redistributeSourceStream redisArgs =>
    redisArgs.map fun redisArgs => this.redistributeSourceStream redisArgs start
  | .livesourceDelDummy _ livesource =>
    (this.livesources.del livesource).map fun r =>
      { this with livesources := r.1, deleted := this.deleted ++ [livesource] }

/-- `livesource_connected`, for a session that has read the headers of its request, and
what follows if it returns 1. -/
def livesourceConnected (this : SourceSystem F) (st : ℕ) (mountpoint : CString) (memory : Bool) :
    Option (SourceSystem F) :=
  match this.sessions[st]? with
  | none => none
  | some s =>
    if s.client ∨ s.state ≠ .waitHttpHeader then none
    -- `assert(st->own_livesource == NULL)`
    else if s.ownLivesource.isSome then none
    else match this.livesources.connected mountpoint with
      | none => none
      | some r =>
        if r.1 = 1 ∧ memory then
          some { this with
            livesources := r.2.1
            sessions := this.sessions.set st { s with
              ownLivesource := some this.livesources.heap.length
              state := .waitStreamSource } }
        else some this

/-- `livesource_find_on_demand`, with the job that is queued for a new livesource. -/
def livesourceFindOnDemand (this : SourceSystem F) (st : Bool) (mountpoint : CString)
    (onDemand sourcelineOnDemand : Bool) (failure : OnDemandFailure) : Option (SourceSystem F) :=
  if this.livesources.CreatesOnDemand st mountpoint onDemand onDemand sourcelineOnDemand then
    if failure = .livesource then some this
    else (this.livesources.findOnDemand st mountpoint onDemand sourcelineOnDemand).map fun r =>
      { this with
        livesources := r.2.1
        jobs := this.jobs ++ failure.jobs ⟨this.livesources.heap.length, mountpoint,
          this.livesources.findRemoteEndpoint mountpoint, false⟩ }
  else some this

/-! ### Steps -/

end SourceSystem

/-- The steps of the system: what calls of the functions there are, and how allocations go. -/
inductive SourceStep (F : Type)
  /-- a connection is accepted -/
  | accept
  /-- a request line is read -/
  | request (st : ℕ)
  | livesourceConnected (st : ℕ) (mountpoint : CString) (memory : Bool)
  | livesourceFindOnDemand (st : Bool) (mountpoint : CString) (onDemand sourcelineOnDemand : Bool)
      (failure : OnDemandFailure)
  /-- `_stack_replace` -/
  | stackReplace (host : Option CString) (port : BitVec 32)
      (newSourcetable : Option (Sourcetable F)) (compareTv isLocal : Bool)
  /-- `livesource_update_execute` -/
  | updateExecute (text : Json → CString) (j : Json)
  /-- a worker runs a job -/
  | runJob (i : ℕ) (start : FetchStart)
  /-- the timer of a task runs `redistribute_start` -/
  | restart (i : ℕ) (start : FetchStart)
  /-- the answer to a fetch session is a stream -/
  | registerSource (st : ℕ)
  | ntripNotifyClose (st : ℕ) (memory : Bool)
  | ntripDecrefEnd (st : ℕ) (memory : Bool)

namespace SourceSystem

variable {F : Type}

/-- One step; `none` if it cannot be made, or if the program is ended by it. -/
def step (this : SourceSystem F) : SourceStep F → Option (SourceSystem F)
  | .accept =>
    some { this with sessions := this.sessions ++ [⟨false, .waitHttpMethod, none, none⟩] }
  | .request st =>
    match this.sessions[st]? with
    | none => none
    | some s =>
      if s.state = .waitHttpMethod then
        some { this with sessions := this.sessions.set st { s with state := .waitHttpHeader } }
      else none
  | .livesourceConnected st mountpoint memory => this.livesourceConnected st mountpoint memory
  | .livesourceFindOnDemand st mountpoint onDemand sourcelineOnDemand failure =>
    this.livesourceFindOnDemand st mountpoint onDemand sourcelineOnDemand failure
  | .stackReplace host port newSourcetable compareTv isLocal =>
    some { this with
      sourcetablestack :=
        this.sourcetablestack.replace host port newSourcetable compareTv isLocal }
  | .updateExecute text j =>
    (this.livesources.updateExecute text j).map fun r => { this with livesources := r.2 }
  | .runJob i start =>
    match this.jobs[i]? with
    | none => none
    | some job => runJob { this with jobs := this.jobs.eraseIdx i } start job
  | .restart i start =>
    this.timers[i]?.map fun redisArgs =>
      redistributeSourceStream { this with timers := this.timers.eraseIdx i } redisArgs start
  | .registerSource st =>
    match this.sessions[st]? with
    | none => none
    | some s =>
      if !s.client ∨ s.state = .ntripEnd then none
      else match s.ownLivesource with
        | none => some this
        | some livesource =>
          (this.livesources.setState livesource .running).map fun r =>
            { this with livesources := r.1 }
  | .ntripNotifyClose st memory => this.ntripNotifyClose st memory
  | .ntripDecrefEnd st memory =>
    if st < this.sessions.length then some (this.ntripDecrefEnd st memory) else none

/-- The states reached by any run of a caster that starts with a given stack. -/
abbrev Reachable (hostname startDate : CString) (stack : Stack F) (this : SourceSystem F) : Prop :=
  Transition.Reachable (· = new hostname startDate stack) (fun _ _ => True) step this

end SourceSystem

end ChilopodCaster
