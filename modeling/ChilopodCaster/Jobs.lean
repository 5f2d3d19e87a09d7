import ChilopodCaster.Lib.Transition
import Mathlib.Data.Fintype.Defs
import Mathlib.Data.Int.Notation
import Mathlib.Logic.Function.Basic
import Mathlib.Tactic.Common

/-!
# The job list and its workers

The job list of `jobs.c` dispatches jobs to worker threads, each of which runs `joblist_run`. Some
jobs are independent; the others belong to a session, and are run one after the other with the lock
of the session held. Sessions with jobs wait in a queue of their own. Each queue has an append
queue, which the workers swap with it when it is empty.

A thread moves from one critical section to the next. What is done under the lock of a session, or
under `append_mutex`, is one step; in `joblist_run`, `mutex` is held over several steps. The event
loops and the jobs that run are not modelled: an append, or the end of a session, may come at any
time from a thread that can hold the lock of the session. A signal is sent some time after the
append it is for. `joblist_free`, which runs once the workers have stopped, is left out, and so is
the unthreaded mode.

An assertion that fails is recorded.

## Main definitions

* `NtripJobs` — the fields of a session for its jobs, and their history
* `Joblist` — `struct joblist`, with the sessions and the workers
* `Joblist.append`, `Joblist.appendMain` — the two parts of `_joblist_append_generic`
* `Joblist.work` — one step of a worker in `joblist_run`
* `Joblist.step` — one step of the system
-/

namespace ChilopodCaster

/-! ### Jobs -/

/-- A job of a session; a callback is known by its address. -/
inductive NtripJob (κ : Type)
  | libeventRw (cb : κ)
  | libeventEvent (cb : κ) (events : BitVec 16)
  | ntripLock (cb : κ)
  deriving DecidableEq, Repr

/-- `job_equal`. -/
def NtripJob.equal {κ : Type} [DecidableEq κ] : NtripJob κ → NtripJob κ → Bool
  | .libeventRw cb, .libeventRw cb' => cb = cb'
  | .libeventEvent cb events, .libeventEvent cb' events' => events = events' && cb = cb'
  | .ntripLock cb, .ntripLock cb' => cb = cb'
  | _, _ => false

/-- An independent job: `JOB_STOP_THREAD`, or one that calls something. -/
inductive MainJob (ι : Type)
  | stopThread
  | call (job : ι)
  deriving DecidableEq, Repr

/-- How far a session is from being freed. -/
inductive FreeState
  | inUse
  /-- after `ntrip_deferred_free` -/
  | deferred
  | freed
  deriving DecidableEq, Repr

/-- The fields of a session for its jobs, which worker holds its lock, and the history of its jobs:
those appended, those run and those discarded. -/
structure NtripJobs (W κ : Type) where
  jobq : List (NtripJob κ)
  njobs : ℤ
  newjobs : ℤ
  /-- the state is `NTRIP_END` -/
  ended : Bool
  free : FreeState
  lockedBy : Option W
  appended : List (NtripJob κ)
  executed : List (NtripJob κ)
  discarded : List (NtripJob κ)

/-- A new session. -/
def NtripJobs.new (W κ : Type) : NtripJobs W κ := ⟨[], 0, 0, false, .inUse, none, [], [], []⟩

/-- Where a worker is in `joblist_run`. -/
inductive WorkerPc (S κ ι : Type)
  /-- before it takes `mutex` at the top of the loop -/
  | start
  /-- at the top of the loop -/
  | top
  /-- runs an independent job -/
  | running (job : MainJob ι)
  /-- before it takes `mutex` after an independent job -/
  | relock
  /-- before it looks at the sessions; whether it has just run an independent job -/
  | sessions (hadJob : Bool)
  /-- has taken a session from the queue, before it takes its lock -/
  | dequeued (st : S)
  /-- holds the lock of a session, between two jobs -/
  | serving (st : S)
  /-- runs a job of a session -/
  | executing (st : S) (job : NtripJob κ)
  /-- after a session, in `ntrip_deferred_run` -/
  | deferred
  /-- found all queues empty, before `pthread_cond_wait` -/
  | beforeWait
  /-- in `pthread_cond_wait` -/
  | waiting
  | exited
  deriving DecidableEq, Repr

/-- The two kinds of jobs. -/
inductive JobKind
  | main
  | ntrip
  deriving DecidableEq, Repr

/-- `struct joblist`, with the sessions, the workers and the number of appends of each kind whose
signal has not been sent yet. -/
structure Joblist (W S κ ι : Type) where
  ntripQueue : List S
  ntripNjobs : ℤ
  appendQueue : List S
  appendNtripNjobs : ℤ
  jobq : List (MainJob ι)
  njobs : ℤ
  appendJobq : List (MainJob ι)
  appendNjobs : ℤ
  /-- whether a worker holds `mutex` -/
  mutex : Bool
  signals : JobKind → ℕ
  session : S → NtripJobs W κ
  pc : W → WorkerPc S κ ι
  /-- whether an assertion has failed -/
  failed : Bool

/-- The steps of the system. An operation on a session is done by a worker that runs one of its
jobs, or by another thread, while no worker holds its lock. -/
inductive JobStep (W S κ ι : Type)
  /-- a worker goes on -/
  | work (w : W)
  /-- an independent job is appended -/
  | appendMain (job : MainJob ι)
  /-- a job is appended to a session -/
  | append (who : Option W) (st : S) (job : NtripJob κ)
  /-- `ntrip_decref_end` -/
  | decrefEnd (who : Option W) (st : S)
  /-- `ntrip_deferred_free` -/
  | deferredFree (who : Option W) (st : S)
  /-- one turn of the loop of `ntrip_deferred_run` -/
  | deferredRun (st : S)
  /-- `pthread_cond_signal`, which wakes a worker if one waits -/
  | signal (kind : JobKind) (woken : Option W)
  /-- a worker wakes up by itself -/
  | wake (w : W)

namespace Joblist

variable {W S κ ι : Type}

/-- `joblist_new`, when the workers start. -/
def new (W S κ ι : Type) : Joblist W S κ ι where
  ntripQueue := []
  ntripNjobs := 0
  appendQueue := []
  appendNtripNjobs := 0
  jobq := []
  njobs := 0
  appendJobq := []
  appendNjobs := 0
  mutex := false
  signals _ := 0
  session _ := .new W κ
  pc _ := .start
  failed := false

/-- `assert`. -/
def assert (this : Joblist W S κ ι) (p : Prop) [Decidable p] : Joblist W S κ ι :=
  { this with failed := this.failed || !decide p }

theorem assert_of_true (this : Joblist W S κ ι) {p : Prop} [Decidable p] (h : p) :
    this.assert p = this := by
  rw [assert, decide_eq_true h, Bool.not_true, Bool.or_false]

/-- The worker goes to some place. -/
def goto [DecidableEq W] (this : Joblist W S κ ι) (w : W) (pc : WorkerPc S κ ι) :
    Joblist W S κ ι :=
  { this with pc := Function.update this.pc w pc }

/-- A session is changed. -/
def setSession [DecidableEq S] (this : Joblist W S κ ι) (st : S) (jobs : NtripJobs W κ) :
    Joblist W S κ ι :=
  { this with session := Function.update this.session st jobs }

/-- One more signal to send. -/
def addSignal (this : Joblist W S κ ι) (kind : JobKind) : Joblist W S κ ι :=
  { this with signals := Function.update this.signals kind (this.signals kind + 1) }

/-! ### Appending jobs -/

/-- `_joblist_append_generic`, without a session. -/
def appendMain (this : Joblist W S κ ι) (job : MainJob ι) : Joblist W S κ ι :=
  let this := this.assert (this.appendNjobs ≥ 0)
  { this with
    appendJobq := this.appendJobq ++ [job]
    appendNjobs := this.appendNjobs + 1 }.addSignal .main

/-- `_joblist_append_generic`, with a session: a job equal to the last one is not appended again,
and a session that is not in a queue is put in one. -/
def append [DecidableEq S] [DecidableEq κ] (this : Joblist W S κ ι) (st : S) (tmpj : NtripJob κ) :
    Joblist W S κ ι :=
  let jobs := this.session st
  if jobs.ended then this
  else
    let this := this.assert (if jobs.jobq = [] then jobs.njobs = 0 ∧ jobs.newjobs ≤ 0
      else jobs.njobs ≠ 0)
    if jobs.jobq.getLast?.any (·.equal tmpj) then this
    else
      let newjobs := if jobs.newjobs ≥ 0 then jobs.newjobs + 1 else jobs.newjobs
      let this := this.assert (jobs.jobq = [] → newjobs = 1 ∨ newjobs = -1)
      let jobs := { jobs with
        jobq := jobs.jobq ++ [tmpj]
        njobs := jobs.njobs + 1
        appended := jobs.appended ++ [tmpj] }
      if newjobs = 1 then
        { this with
          appendQueue := this.appendQueue ++ [st]
          appendNtripNjobs := this.appendNtripNjobs + 1 }.setSession st
            { jobs with newjobs := -1 } |>.addSignal .ntrip
      else
        ((this.assert (newjobs = -1)).setSession st { jobs with newjobs := newjobs }).addSignal
          .ntrip

/-! ### The workers -/

/-- A worker that holds `mutex` looks at the independent jobs: it takes the first one, after a swap
with the append queue if there was none. -/
def takeJob [DecidableEq W] (this : Joblist W S κ ι) (w : W) : Joblist W S κ ι :=
  let this := if this.jobq = [] then
      let this := (this.assert (this.njobs = 0)).assert (this.appendNjobs ≥ 0)
      { this with
        jobq := this.appendJobq
        njobs := this.appendNjobs
        appendJobq := this.jobq
        appendNjobs := this.njobs }
    else this
  let this := this.assert (this.njobs ≥ 0)
  match this.jobq with
  | [] => this.goto w (.sessions false)
  | job :: jobq =>
    { this.assert (this.njobs > 0) with
      jobq := jobq
      njobs := this.njobs - 1
      mutex := false }.goto w (.running job)

/-- `pthread_cond_broadcast`. -/
def broadcast [DecidableEq S] [DecidableEq κ] [DecidableEq ι] (this : Joblist W S κ ι) :
    Joblist W S κ ι :=
  { this with pc := fun w => if this.pc w = .waiting then .start else this.pc w }

/-- A worker that holds `mutex` looks at the sessions: it takes the first one, after a swap with the
append queue if there was none. If there is none at all it goes back to the top, if it has just run
an independent job, or goes to wait. -/
def takeSession [DecidableEq W] [DecidableEq S] [DecidableEq κ] [DecidableEq ι]
    (this : Joblist W S κ ι) (w : W) (hadJob : Bool) : Joblist W S κ ι :=
  match this.ntripQueue with
  | st :: ntripQueue =>
    { this with ntripQueue := ntripQueue, ntripNjobs := this.ntripNjobs - 1 }.goto w (.dequeued st)
  | [] =>
    match this.appendQueue with
    | [] => if hadJob then this.goto w .top else { this with mutex := false }.goto w .beforeWait
    | st :: ntripQueue =>
      { this.broadcast with
        ntripQueue := ntripQueue
        ntripNjobs := this.appendNtripNjobs - 1
        appendQueue := []
        appendNtripNjobs := this.ntripNjobs }.goto w (.dequeued st)

/-- A worker that holds the lock of a session takes its next job, and runs it unless the session has
ended. -/
def takeNtripJob [DecidableEq W] [DecidableEq S] (this : Joblist W S κ ι) (w : W) (st : S) :
    Joblist W S κ ι :=
  let jobs := this.session st
  match jobs.jobq with
  | [] => (this.setSession st { jobs with lockedBy := none }).goto w .deferred
  | job :: jobq =>
    let jobs := { jobs with
      jobq := jobq
      njobs := jobs.njobs - 1
      newjobs := if jobs.newjobs > 0 then jobs.newjobs - 1 else jobs.newjobs }
    if jobs.ended then this.setSession st { jobs with discarded := jobs.discarded ++ [job] }
    else (this.setSession st { jobs with executed := jobs.executed ++ [job] }).goto w
      (.executing st job)

/-- The next step of a worker. -/
def work [DecidableEq W] [DecidableEq S] [DecidableEq κ] [DecidableEq ι]
    (this : Joblist W S κ ι) (w : W) : Option (Joblist W S κ ι) :=
  match this.pc w with
  | .start => if this.mutex then none else some ({ this with mutex := true }.goto w .top)
  | .top => some (this.takeJob w)
  | .running .stopThread => some (this.goto w .exited)
  | .running (.call _) => some (this.goto w .relock)
  | .relock =>
    if this.mutex then none else some ({ this with mutex := true }.goto w (.sessions true))
  | .sessions hadJob => some (this.takeSession w hadJob)
  | .dequeued st =>
    if (this.session st).lockedBy.isSome then none
    else some ({ this with mutex := false }.setSession st
      { this.session st with newjobs := 0, lockedBy := some w } |>.goto w (.serving st))
  | .serving st => some (this.takeNtripJob w st)
  | .executing st _ => some (this.goto w (.serving st))
  | .deferred => some (this.goto w .start)
  | .beforeWait => some (this.goto w .waiting)
  | .waiting => none
  | .exited => none

/-! ### Sessions -/

/-- Whether an operation may be done on a session: by a worker that runs one of its jobs, or by
another thread if no worker has its lock. -/
def MayAct [DecidableEq S] (this : Joblist W S κ ι) (st : S) (who : Option W) : Bool :=
  match who with
  | none => (this.session st).lockedBy.isNone
  | some w =>
    match this.pc w with
    | .executing st' _ => st' = st
    | _ => false

/-- `joblist_drain`. -/
def drain (jobs : NtripJobs W κ) : NtripJobs W κ :=
  let n : ℤ := jobs.jobq.length
  { jobs with
    jobq := []
    njobs := jobs.njobs - n
    newjobs := if jobs.newjobs > 0 then (if jobs.newjobs > n then jobs.newjobs - n else 0)
      else jobs.newjobs
    discarded := jobs.discarded ++ jobs.jobq }

/-- `ntrip_deferred_run`, for a session in the queue of those to free: if it is still in a queue of
the job list it is left there. -/
def deferredRun [DecidableEq S] [DecidableEq κ] (this : Joblist W S κ ι) (st : S) :
    Joblist W S κ ι :=
  let jobs := this.session st
  let this := this.assert (jobs.jobq = [])
  if jobs.newjobs = -1 then this
  else ((this.assert (jobs.newjobs ≠ -1)).assert (jobs.njobs = 0)).setSession st
    { jobs with free := .freed }

/-- One step of the system. -/
def step [Fintype W] [DecidableEq W] [DecidableEq S] [DecidableEq κ] [DecidableEq ι]
    (this : Joblist W S κ ι) : JobStep W S κ ι → Option (Joblist W S κ ι)
  | .work w => this.work w
  | .appendMain job => some (this.appendMain job)
  | .append who st job => if this.MayAct st who then some (this.append st job) else none
  | .decrefEnd who st =>
    if this.MayAct st who then some (this.setSession st { this.session st with ended := true })
    else none
  | .deferredFree who st =>
    if this.MayAct st who ∧ (this.session st).ended ∧ (this.session st).free = .inUse then
      some (this.setSession st { drain (this.session st) with free := .deferred })
    else none
  | .deferredRun st =>
    if this.MayAct st none ∧ (this.session st).free = .deferred then some (this.deferredRun st)
    else none
  | .signal kind woken =>
    if this.signals kind = 0 then none
    else
      let this := { this with signals := Function.update this.signals kind (this.signals kind - 1) }
      match woken with
      | none => if ∀ w, this.pc w ≠ .waiting then some this else none
      | some w => if this.pc w = .waiting then some (this.goto w .start) else none
  | .wake w => if this.pc w = .waiting then some (this.goto w .start) else none

end Joblist

end ChilopodCaster
