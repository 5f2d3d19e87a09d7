import ChilopodCaster.Lib.Transition
import Mathlib.Algebra.Group.Int.Defs
import Mathlib.Logic.Function.Basic

/-!
# Subscriptions and the threads that change them

A session that receives a stream has a record, `struct subscriber`, which its field `subscription`
points to, and which is in the list of the livesource it names. The two are set by
`livesource_add_subscriber` under different locks, one after the other: the lock of the session and
the lock of the livesource. A session of a virtual mountpoint is moved from one livesource to
another by `redistribute_switch_source`, which reads the field without a lock before it
unsubscribes.

These functions are run as jobs of the main queue, by any number of workers; nothing keeps two
workers from running two jobs of the same session. A job is queued for a livesource that was looked
up before, under the lock of the table, and that may be deleted in between.

What a thread does under a lock is one step; between two of them it is at a place that `SubscribePc`
tells. The loops over the subscribers of a livesource are run under its lock.

## Main definitions

* `SubscriberRecord` — `struct subscriber`
* `Subscriptions` — sessions, livesources, jobs, and where each worker is
* `Subscriptions.step` — one step, by a worker or from outside
-/

namespace ChilopodCaster

/-- `struct subscriber`, given by its address and the fields that do not change once it is in
use. -/
structure SubscriberRecord (S L : Type) where
  address : ℕ
  livesource : L
  ntripState : S
  /-- the field `virtual` -/
  virt : Bool
  deriving DecidableEq, Repr

/-- The jobs queued by `joblist_append_ntrip_livesource`. -/
inductive SubscribeJob (S L : Type)
  | livesourceAddSubscriber (st : S) (livesource : L)
  | redistributeSwitchSource (st : S) (livesource : L)
  | livesourceDel (livesource : L)
  deriving DecidableEq, Repr

/-- Where a worker is. -/
inductive SubscribePc (S L : Type)
  | idle
  /-- a livesource was found, and its job is about to be queued -/
  | found (job : SubscribeJob S L)
  /-- in `livesource_add_subscriber`, before it has the lock of the session -/
  | adding (st : S) (livesource : L) (virt : Bool)
  /-- in `livesource_add_subscriber`, before it has the lock of the livesource -/
  | inserting (sub : SubscriberRecord S L)
  /-- in `redistribute_switch_source`, before the field `subscription` is read -/
  | switching (st : S) (livesource : L)
  /-- in `livesource_del_subscriber`, before the field `subscription` is read -/
  | reading (st : S)
  /-- in `livesource_del_subscriber`, before it has the lock of the livesource found in the field,
  and that of the session; `redistribute_switch_source` then subscribes to another one -/
  | removing (st : S) (locked : L) (next : Option L)
  /-- in `livesource_del`, before it has the lock of the table -/
  | unregistering (livesource : L)
  /-- in `livesource_del`, before `livesource_end` -/
  | ending (livesource : L)
  deriving DecidableEq, Repr

/-- Sessions, livesources and workers. A worker is of type `W`, a session of type `S`, a livesource
of type `L` and a mountpoint of type `M`. -/
structure Subscriptions (W S L M : Type) where
  /-- the field `subscription` of a session -/
  subscription : S → Option (SubscriberRecord S L)
  /-- the session has the state `NTRIP_END` -/
  ended : S → Bool
  /-- the session has asked for a mountpoint that is not virtual -/
  asked : S → Bool
  /-- the list `subscribers` of a livesource -/
  subscribers : L → List (SubscriberRecord S L)
  /-- the field `nsubs` of a livesource -/
  nsubs : L → ℤ
  /-- the field `backlog_len` of the record at an address -/
  backlogLen : ℕ → ℕ
  nextAddress : ℕ
  /-- the livesource was made by `livesource_new` -/
  made : L → Bool
  /-- the table of livesources by mountpoint -/
  hash : M → Option L
  /-- the jobs in the main queue -/
  jobs : List (SubscribeJob S L)
  pc : W → SubscribePc S L
  /-- an assertion has failed, or a record was taken out of a list it is not in, or without the
  lock of the list -/
  failed : Bool

namespace Subscriptions

variable {W S L M : Type} [DecidableEq W] [DecidableEq S] [DecidableEq L] [DecidableEq M]

/-- No session is subscribed, and there is no livesource. -/
def new (W S L M : Type) : Subscriptions W S L M where
  subscription _ := none
  ended _ := false
  asked _ := false
  subscribers _ := []
  nsubs _ := 0
  backlogLen _ := 0
  nextAddress := 0
  made _ := false
  hash _ := none
  jobs := []
  pc _ := .idle
  failed := false

/-- A worker moves on. -/
def goto (this : Subscriptions W S L M) (w : W) (pc : SubscribePc S L) : Subscriptions W S L M :=
  { this with pc := Function.update this.pc w pc }

/-! ### Subscribers of a livesource -/

/-- `_livesource_del_subscriber_unlocked`. -/
def delSubscriberUnlocked (this : Subscriptions W S L M) (st : S) : Subscriptions W S L M :=
  match this.subscription st with
  | none => this
  | some sub =>
    { this with
      subscribers := Function.update this.subscribers sub.livesource
        ((this.subscribers sub.livesource).erase sub)
      nsubs := Function.update this.nsubs sub.livesource (this.nsubs sub.livesource - 1)
      subscription := Function.update this.subscription sub.ntripState none
      failed := this.failed || decide (sub ∉ this.subscribers sub.livesource) }

/-- What `livesource_del_subscriber` does with the locks of a livesource and of the session. -/
def delSubscriber (this : Subscriptions W S L M) (st : S) (locked : L) : Subscriptions W S L M :=
  let that := this.delSubscriberUnlocked st
  { that with
    failed := that.failed || (this.subscription st).any fun sub => sub.livesource ≠ locked }

/-- The loop of `livesource_kill_subscribers_unlocked`, for one subscriber. The job it queues for a
session of a virtual mountpoint looks a livesource up, which may happen at any time. -/
def killSubscriber (killBacklogged : Bool) (backlogEvbuffer : ℕ) (this : Subscriptions W S L M)
    (np : SubscriberRecord S L) : Subscriptions W S L M :=
  let backlogged : Bool := backlogEvbuffer < this.backlogLen np.address
  if !killBacklogged || backlogged then
    let this := this.delSubscriberUnlocked np.ntripState
    if !backlogged && !np.virt then
      { this with ended := Function.update this.ended np.ntripState true }
    else this
  else this

/-- `livesource_kill_subscribers_unlocked`. -/
def killSubscribersUnlocked (this : Subscriptions W S L M) (livesource : L) (killBacklogged : Bool)
    (backlogEvbuffer : ℕ) : Subscriptions W S L M :=
  (this.subscribers livesource).foldl (killSubscriber killBacklogged backlogEvbuffer) this

/-- `livesource_end`. -/
def livesourceEnd (this : Subscriptions W S L M) (livesource : L) : Subscriptions W S L M :=
  let this := this.killSubscribersUnlocked livesource false 0
  -- `assert(this->nsubs == 0)`
  { this with failed := this.failed || decide (this.nsubs livesource ≠ 0) }

/-- `livesource_send_subscribers`, less the packet itself: `output` is the length of the output
buffer of each session. -/
def livesourceSendSubscribers (this : Subscriptions W S L M) (livesource : L) (output : S → ℕ)
    (backlogEvbuffer : ℕ) : Subscriptions W S L M :=
  let subscribers := this.subscribers livesource
  let sent := subscribers.filter fun np => !this.ended np.ntripState
  let this := { this with
    backlogLen := sent.foldl
      (fun len np => Function.update len np.address (output np.ntripState)) this.backlogLen
    -- `assert(n == this->nsubs)`
    failed := this.failed || decide ((subscribers.length : ℤ) ≠ this.nsubs livesource) }
  if sent.any fun np => backlogEvbuffer < output np.ntripState then
    this.killSubscribersUnlocked livesource true backlogEvbuffer
  else this

/-! ### Steps -/

/-- The next step of a worker. An allocation fails if there is no memory. -/
def work (mountpoint : L → M) (this : Subscriptions W S L M) (w : W) (memory : Bool) :
    Option (Subscriptions W S L M) :=
  match this.pc w with
  | .idle => none
  | .found job =>
    some { this.goto w .idle with jobs := this.jobs ++ if memory then [job] else [] }
  | .adding st livesource virt =>
    if !memory || this.ended st then some (this.goto w .idle)
    else
      let sub : SubscriberRecord S L := ⟨this.nextAddress, livesource, st, virt⟩
      some { this.goto w (.inserting sub) with
        nextAddress := this.nextAddress + 1
        subscription := Function.update this.subscription st (some sub)
        -- `assert(st->subscription == NULL)`
        failed := this.failed || (this.subscription st).isSome }
  | .inserting sub =>
    some { this.goto w .idle with
      subscribers := Function.update this.subscribers sub.livesource
        (this.subscribers sub.livesource ++ [sub])
      nsubs := Function.update this.nsubs sub.livesource (this.nsubs sub.livesource + 1) }
  | .switching st livesource =>
    match this.subscription st with
    | none => some (this.goto w (.adding st livesource true))
    | some sub => some (this.goto w (.removing st sub.livesource (some livesource)))
  | .reading st =>
    match this.subscription st with
    | none => some (this.goto w .idle)
    | some sub => some (this.goto w (.removing st sub.livesource none))
  | .removing st locked none => some ((this.delSubscriber st locked).goto w .idle)
  | .removing st locked (some livesource) =>
    some ((this.delSubscriber st locked).goto w (.adding st livesource true))
  | .unregistering livesource =>
    if this.hash (mountpoint livesource) = some livesource then
      some { this.goto w (.ending livesource) with
        hash := Function.update this.hash (mountpoint livesource) none }
    else none
  | .ending livesource => some ((this.livesourceEnd livesource).goto w .idle)

/-- A worker begins a job. `redistribute_switch_source` first makes a copy of the name of the
mountpoint. -/
def begin (memory : Bool) : SubscribeJob S L → SubscribePc S L
  | .livesourceAddSubscriber st livesource => .adding st livesource false
  | .redistributeSwitchSource st livesource => if memory then .switching st livesource else .idle
  | .livesourceDel livesource => .unregistering livesource

end Subscriptions

/-- The steps of the system. -/
inductive SubscribeStep (W S L : Type)
  /-- `livesource_connected` makes a livesource -/
  | livesourceConnected (livesource : L)
  /-- `livesource_find_and_subscribe` or `ntripsrv_redo_virtual_pos` finds a livesource, or makes it
  on demand -/
  | livesourceFind (w : W) (st : S) (livesource : L) (create : Bool)
  /-- `ntrip_unregister_livesource` queues a job -/
  | ntripUnregisterLivesource (livesource : L)
  /-- a worker takes a job from the queue -/
  | take (w : W) (i : ℕ) (memory : Bool)
  /-- a worker calls `livesource_del_subscriber` -/
  | livesourceDelSubscriber (w : W) (st : S)
  /-- a worker makes its next step -/
  | work (w : W) (memory : Bool)
  | livesourceSendSubscribers (livesource : L) (output : S → ℕ) (backlogEvbuffer : ℕ)
  | ntripDecrefEnd (st : S)

namespace Subscriptions

variable {W S L M : Type} [DecidableEq W] [DecidableEq S] [DecidableEq L] [DecidableEq M]

/-- A lookup gives the livesource: it is in the table, or it is made on demand since nothing is
there under its mountpoint. -/
def Finds (mountpoint : L → M) (this : Subscriptions W S L M) (livesource : L) (create : Bool) :
    Prop :=
  (create = false ∧ this.hash (mountpoint livesource) = some livesource) ∨
    (create = true ∧ this.made livesource = false ∧ this.hash (mountpoint livesource) = none)

instance (mountpoint : L → M) (this : Subscriptions W S L M) (livesource : L) (create : Bool) :
    Decidable (this.Finds mountpoint livesource create) := inferInstanceAs (Decidable (_ ∨ _))

/-- One step, if it can be made. The mountpoint of a session is virtual or not; if it is not, the
session asks for it once. A livesource is made once. -/
def step (sourceVirtual : S → Bool) (mountpoint : L → M) (this : Subscriptions W S L M) :
    SubscribeStep W S L → Option (Subscriptions W S L M)
  | .livesourceConnected livesource =>
    if this.made livesource = false ∧ this.hash (mountpoint livesource) = none then
      some { this with
        made := Function.update this.made livesource true
        hash := Function.update this.hash (mountpoint livesource) (some livesource) }
    else none
  | .livesourceFind w st livesource create =>
    if this.pc w = .idle ∧ (sourceVirtual st ∨ this.asked st = false) ∧
        this.Finds mountpoint livesource create then
      let job := if sourceVirtual st then .redistributeSwitchSource st livesource
        else .livesourceAddSubscriber st livesource
      some { this.goto w (.found job) with
        asked := Function.update this.asked st true
        made := Function.update this.made livesource true
        hash := Function.update this.hash (mountpoint livesource) (some livesource) }
    else none
  | .ntripUnregisterLivesource livesource =>
    if this.hash (mountpoint livesource) = some livesource then
      some { this with jobs := this.jobs ++ [.livesourceDel livesource] }
    else none
  | .take w i memory =>
    match this.pc w, this.jobs[i]? with
    | .idle, some job =>
      some { this.goto w (begin memory job) with jobs := this.jobs.eraseIdx i }
    | _, _ => none
  | .livesourceDelSubscriber w st =>
    if this.pc w = .idle then some (this.goto w (.reading st)) else none
  | .work w memory => this.work mountpoint w memory
  | .livesourceSendSubscribers livesource output backlogEvbuffer =>
    some (this.livesourceSendSubscribers livesource output backlogEvbuffer)
  | .ntripDecrefEnd st => some { this with ended := Function.update this.ended st true }

end Subscriptions

end ChilopodCaster
