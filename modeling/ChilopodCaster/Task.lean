import ChilopodCaster.Lib.Transition
import ChilopodCaster.Packet
import Mathlib.Algebra.BigOperators.Group.List.Basic
import Mathlib.Data.List.Basic

/-!
# The send queue of a task

A task (`ntrip_task.c`) keeps an outgoing connection to a server and a queue of MIME items to send
on it: log entries for Graylog, or updates for another node. A request takes items from the head of
the queue, which stay there as `pending` until the server replies; if the connection is lost they
are sent again on the next one. A queue that would grow over its limit is drained.

Lengths and sizes are natural numbers: they are those of objects in memory, so neither a `size_t`
sum nor the `int` count of the items overflows. Allocations are taken to succeed. What the items
drained are written to, the log and the headers of a request other than its `Content-Length` are
left out.

## Main definitions

* `Task` — `struct ntrip_task`, as far as the queue goes
* `Task.drainQueue`, `Task.sendNextRequest`, `Task.ackPending`, `Task.reschedule` — its operations;
  `none` where an assertion fails
* `Sender` — a task, its session and the history of its queue
* `Sender.Sound` — the invariant of a sender

## Main results

* `Sender.reachable_sound` — the invariant of every sender reached
* `Sender.reachable_accounting` — accounting of the queue, and in which order items are sent and
  acknowledged
-/

namespace ChilopodCaster

/-- `enum task_state`. -/
inductive TaskState
  | taskInit
  | taskRunning
  | taskEnd
  deriving DecidableEq, Repr

/-- `struct mime_content`, made by `mime_new_from_packet`. The rank of its allocation stands for its
address. -/
structure MimeContent where
  serial : ℕ
  packet : Packet
  deriving DecidableEq, Repr

/-- `m->len`. -/
def MimeContent.len (m : MimeContent) : ℕ := m.packet.datalen

/-- The sum of the lengths of some items. -/
def mimeSize (items : List MimeContent) : ℕ := (items.map MimeContent.len).sum

/-- The fields of `struct ntrip_task` for the queue. -/
structure Task where
  state : TaskState
  mimeq : List MimeContent
  /-- the number of items sent that wait for a reply -/
  pending : ℕ
  queueSize : ℕ
  queueMaxSize : ℕ
  /-- the maximum size of a bulk request; 0 if each request has one item -/
  bulkMaxSize : ℕ
  deriving DecidableEq, Repr

/-- A request: what its `Content-Length` says, its items, and the bytes after the headers. -/
structure Request where
  contentLength : ℕ
  items : List MimeContent
  body : List Byte
  deriving DecidableEq, Repr

namespace Task

/-! ### Operations -/

/-- `ntrip_task_new`. -/
def new (bulkMaxSize queueMaxSize : ℕ) : Task where
  state := .taskInit
  mimeq := []
  pending := 0
  queueSize := 0
  queueMaxSize := queueMaxSize
  bulkMaxSize := bulkMaxSize

/-- The loop on the pending items of `ntrip_task_drain_queue` and of `ntrip_task_ack_pending`: the
count left, the items taken from the head, and the others. -/
def popPending : ℕ → List MimeContent → ℕ × List MimeContent × List MimeContent
  | pending + 1, m :: mimeq =>
    let r := popPending pending mimeq
    (r.1, m :: r.2.1, r.2.2)
  | pending, mimeq => (pending, [], mimeq)

/-- `ntrip_task_drain_queue`, with the items drained. -/
def drainQueue (this : Task) : Option (Task × List MimeContent) :=
  let r := popPending this.pending this.mimeq
  if r.1 = 0 then some ({ this with mimeq := r.2.1, queueSize := mimeSize r.2.1 }, r.2.2) else none

/-- The test for an overflow in `ntrip_task_queue`. -/
def Overflows (this : Task) (m : MimeContent) : Prop :=
  m.len + this.queueSize > this.queueMaxSize

instance (this : Task) (m : MimeContent) : Decidable (this.Overflows m) :=
  inferInstanceAs (Decidable (_ > _))

/-- An item that no bulk request can hold, which `ntrip_task_queue` drops. -/
def Oversize (this : Task) (m : MimeContent) : Prop :=
  this.bulkMaxSize ≠ 0 ∧ m.len > this.bulkMaxSize - 1

instance (this : Task) (m : MimeContent) : Decidable (this.Oversize m) :=
  inferInstanceAs (Decidable (_ ∧ _))

/-- The insertion in `ntrip_task_queue`. -/
def insert (this : Task) (m : MimeContent) : Task :=
  { this with mimeq := this.mimeq ++ [m], queueSize := this.queueSize + m.len }

/-- The first loop of a bulk request: the size and the number of the items it can hold, when it
already holds `size` bytes. -/
def bulkCount (bulkMaxSize : ℕ) : ℕ → List MimeContent → ℕ × ℕ
  | size, [] => (size, 0)
  | size, m :: mimeq =>
    if size + m.len + 1 > bulkMaxSize then (size, 0)
    else
      let r := bulkCount bulkMaxSize (size + (m.len + 1)) mimeq
      (r.1, r.2 + 1)

/-- `ntrip_task_send_next_request`, with the request sent. -/
def sendNextRequest (this : Task) : Option (Task × Option Request) :=
  if this.pending ≠ 0 then none
  else if this.bulkMaxSize ≠ 0 then
    let r := bulkCount this.bulkMaxSize 0 this.mimeq
    if r.2 = 0 then some (this, none)
    else
      let items := this.mimeq.take r.2
      some ({ this with pending := this.pending + items.length },
        some ⟨r.1, items, items.flatMap fun m => m.packet.data ++ [LF]⟩)
  else match this.mimeq with
    | [] => some (this, none)
    | m :: _ => some ({ this with pending := 1 }, some ⟨m.len, [m], m.packet.data⟩)

/-- `ntrip_task_ack_pending`, with the items acknowledged. -/
def ackPending (this : Task) : Option (Task × List MimeContent) :=
  if this.state = .taskEnd then some (this, [])
  else
    let r := popPending this.pending this.mimeq
    if r.1 = 0 then
      some ({ this with
        mimeq := r.2.2, queueSize := this.queueSize - mimeSize r.2.1, pending := 0 }, r.2.1)
    else none

/-- `ntrip_task_reschedule`, less the timer. -/
def reschedule (this : Task) : Task :=
  if this.state = .taskEnd then this else { this with pending := 0 }

/-- `ntrip_task_stop`, less the timer and the session. -/
def stop (this : Task) : Task :=
  if this.state = .taskEnd then this else { this with state := .taskEnd, pending := 0 }

/-! ### What the loops compute -/

theorem popPending_eq (pending : ℕ) (mimeq : List MimeContent) :
    popPending pending mimeq =
      (pending - mimeq.length, mimeq.take pending, mimeq.drop pending) := by
  induction mimeq generalizing pending with
  | nil => cases pending <;> rfl
  | cons m mimeq ih =>
    cases pending with
    | zero => simp [popPending]
    | succ pending =>
      rw [popPending, ih, List.length_cons, Nat.add_sub_add_right]
      rfl

/-- The size that is counted is that of the items and of a newline after each. -/
theorem bulkCount_size (bulkMaxSize size : ℕ) (mimeq : List MimeContent) :
    (bulkCount bulkMaxSize size mimeq).1 =
      size + ((mimeq.take (bulkCount bulkMaxSize size mimeq).2).flatMap fun m =>
        m.packet.data ++ [LF]).length := by
  induction mimeq generalizing size with
  | nil => simp [bulkCount]
  | cons m mimeq ih =>
    rw [bulkCount]
    split
    · simp
    · dsimp only
      rw [ih, List.take_succ_cons, List.flatMap_cons, List.length_append, List.length_append,
        List.length_singleton, MimeContent.len, Packet.datalen]
      omega

/-- The bytes of the items and a newline after each. -/
theorem length_bulkBody (items : List MimeContent) :
    (items.flatMap fun m => m.packet.data ++ [LF]).length = mimeSize items + items.length := by
  induction items with
  | nil => rfl
  | cons m items ih =>
    rw [List.flatMap_cons, List.length_append, List.length_append, ih, List.length_singleton,
      List.length_cons, mimeSize, mimeSize, List.map_cons, List.sum_cons, MimeContent.len,
      Packet.datalen]
    omega

theorem bulkCount_le {bulkMaxSize size : ℕ} (h : size ≤ bulkMaxSize) (mimeq : List MimeContent) :
    (bulkCount bulkMaxSize size mimeq).1 ≤ bulkMaxSize := by
  induction mimeq generalizing size with
  | nil => exact h
  | cons m mimeq ih =>
    rw [bulkCount]
    split
    · exact h
    · exact ih (by omega)

/-- An item that is not too large is counted if it is at the head. -/
theorem bulkCount_ne_zero {bulkMaxSize : ℕ} {m : MimeContent} (h : m.len + 1 ≤ bulkMaxSize)
    (mimeq : List MimeContent) : (bulkCount bulkMaxSize 0 (m :: mimeq)).2 ≠ 0 := by
  rw [bulkCount, if_neg (by omega)]
  exact Nat.succ_ne_zero _

theorem mimeSize_append (l l' : List MimeContent) :
    mimeSize (l ++ l') = mimeSize l + mimeSize l' := by
  rw [mimeSize, List.map_append, List.sum_append]
  rfl

/-- The items that a bulk request can hold: `ntrip_task_queue` lets no other in. -/
def Fits (this : Task) : Prop :=
  this.bulkMaxSize ≠ 0 → ∀ m ∈ this.mimeq, m.len + 1 ≤ this.bulkMaxSize

variable {this that : Task}

theorem Fits.sublist (h : this.Fits) (hbulk : that.bulkMaxSize = this.bulkMaxSize)
    (hsub : that.mimeq.Sublist this.mimeq) : that.Fits := by
  intro hne m hm
  rw [hbulk] at hne ⊢
  exact h hne m (hsub.subset hm)

theorem Fits.insert (h : this.Fits) {m : MimeContent} (hsize : ¬ this.Oversize m) :
    (this.insert m).Fits := by
  intro hbulk m' hm'
  rcases List.mem_append.mp hm' with hm' | hm'
  · exact h hbulk m' hm'
  · rw [List.mem_singleton.mp hm']
    change this.bulkMaxSize ≠ 0 at hbulk
    change m.len + 1 ≤ this.bulkMaxSize
    have hle : ¬ m.len > this.bulkMaxSize - 1 := fun hgt => hsize ⟨hbulk, hgt⟩
    omega

/-- A drain keeps the head of the queue. -/
theorem drainQueue_eq_some {items : List MimeContent} (h : this.drainQueue = some (that, items)) :
    that.mimeq = this.mimeq.take this.pending ∧ that.pending = this.pending ∧
      that.bulkMaxSize = this.bulkMaxSize := by
  rw [drainQueue, popPending_eq] at h
  dsimp only at h
  split at h
  · obtain ⟨rfl, -⟩ := Prod.mk.inj (Option.some.inj h)
    exact ⟨rfl, rfl, rfl⟩
  · contradiction

/-- An acknowledgement keeps the end of the queue. -/
theorem ackPending_eq_some {items : List MimeContent} (h : this.ackPending = some (that, items)) :
    that.mimeq.Sublist this.mimeq ∧ that.bulkMaxSize = this.bulkMaxSize := by
  rw [ackPending, popPending_eq] at h
  dsimp only at h
  split at h
  · obtain ⟨rfl, -⟩ := Prod.mk.inj (Option.some.inj h)
    exact ⟨List.Sublist.refl _, rfl⟩
  · split at h
    · obtain ⟨rfl, -⟩ := Prod.mk.inj (Option.some.inj h)
      exact ⟨List.drop_sublist _ _, rfl⟩
    · contradiction

/-- No request is sent only if the queue is empty. -/
theorem sendNextRequest_eq_some {request : Option Request} (hfits : this.Fits)
    (h : this.sendNextRequest = some (that, request)) :
    that.mimeq = this.mimeq ∧ that.bulkMaxSize = this.bulkMaxSize ∧
      (request = none → this.mimeq = []) := by
  rw [sendNextRequest] at h
  split at h
  · contradiction
  · split at h
    · next hbulk =>
      dsimp only at h
      split at h
      · next hcount =>
        obtain ⟨rfl, -⟩ := Prod.mk.inj (Option.some.inj h)
        refine ⟨rfl, rfl, ?_⟩
        intro _
        cases hmimeq : this.mimeq with
        | nil => rfl
        | cons m mimeq =>
          rw [hmimeq] at hcount
          exact absurd hcount (bulkCount_ne_zero (hfits hbulk m (by simp [hmimeq])) mimeq)
      · obtain ⟨rfl, rfl⟩ := Prod.mk.inj (Option.some.inj h)
        exact ⟨rfl, rfl, by simp⟩
    · split at h
      · next hmimeq =>
        obtain ⟨rfl, -⟩ := Prod.mk.inj (Option.some.inj h)
        exact ⟨rfl, rfl, fun _ => hmimeq⟩
      · obtain ⟨rfl, rfl⟩ := Prod.mk.inj (Option.some.inj h)
        exact ⟨rfl, rfl, by simp⟩

/-- A task is stopped or started by none of these. -/
theorem state_sendNextRequest {r : Task × Option Request}
    (h : this.sendNextRequest = some r) : r.1.state = this.state := by
  rw [sendNextRequest] at h
  split at h
  · contradiction
  · split at h
    · dsimp only at h
      split at h
      · rw [← Option.some.inj h]
      · rw [← Option.some.inj h]
    · split at h
      · rw [← Option.some.inj h]
      · rw [← Option.some.inj h]

theorem state_ackPending {r : Task × List MimeContent}
    (h : this.ackPending = some r) : r.1.state = this.state := by
  rw [ackPending] at h
  split at h
  · rw [← Option.some.inj h]
  · dsimp only at h
    split at h
    · rw [← Option.some.inj h]
    · contradiction

theorem state_drainQueue {r : Task × List MimeContent}
    (h : this.drainQueue = some r) : r.1.state = this.state := by
  rw [drainQueue] at h
  split at h
  · rw [← Option.some.inj h]
  · contradiction

end Task

/-! ### A task and its session -/

/-- The session of a task, as far as the queue goes. -/
inductive Link
  /-- no session since the task was created, rescheduled or stopped -/
  | off
  /-- the session has ended and the task is not rescheduled yet -/
  | ended
  /-- a request is not acknowledged yet -/
  | busy
  /-- `NTRIP_IDLE_CLIENT` -/
  | idle
  deriving DecidableEq, Repr

/-- What happens to the items of a queue. -/
inductive QueueEvent
  | insert (m : MimeContent)
  | send (request : Request)
  | ack (items : List MimeContent)
  | drain (items : List MimeContent)
  deriving DecidableEq, Repr

/-- A task with its session, the number of items allocated and the history of the queue. -/
structure Sender where
  task : Task
  link : Link
  allocated : ℕ
  history : List QueueEvent
  deriving DecidableEq, Repr

/-- The operations on a task. A session ends by itself, then the task is rescheduled, then another
session may connect. -/
inductive TaskOp
  | queue (packet : Packet)
  | sendNextRequest
  | ackPending
  | reschedule
  | drainQueue
  | connect
  | sessionEnd
  | stop
  deriving DecidableEq, Repr

namespace Sender

/-- A task that was just created. -/
def new (bulkMaxSize queueMaxSize : ℕ) : Sender where
  task := .new bulkMaxSize queueMaxSize
  link := .off
  allocated := 0
  history := []

/-- `ntrip_task_drain_queue`. -/
def drainQueue (s : Sender) : Option Sender :=
  s.task.drainQueue.map fun r =>
    { s with task := r.1, history := s.history ++ [.drain r.2] }

/-- The insertion of an item. -/
def insert (s : Sender) (m : MimeContent) : Sender :=
  { s with task := s.task.insert m, history := s.history ++ [.insert m] }

/-- `ntrip_task_send_next_request`. A request makes the session wait for a reply. -/
def sendNextRequest (s : Sender) : Option Sender :=
  if s.link ≠ .idle then none
  else s.task.sendNextRequest.map fun r =>
    match r.2 with
    | none => { s with task := r.1 }
    | some request =>
      { s with task := r.1, link := .busy, history := s.history ++ [.send request] }

/-- `ntrip_task_ack_pending`, after which a session that was waiting is idle again. -/
def ackPending (s : Sender) : Option Sender :=
  if s.task.state = .taskEnd then some s
  else s.task.ackPending.map fun r =>
    { s with
      task := r.1
      link := if s.link = .busy then .idle else s.link
      history := s.history ++ [.ack r.2] }

/-- `ntrip_task_queue`, by one thread: the counter `restart_sending` is then 0 when it gets
there. -/
def queue (s : Sender) (packet : Packet) : Option Sender :=
  if s.task.state = .taskEnd then some s
  else
    let m : MimeContent := ⟨s.allocated, packet⟩
    (if s.task.Overflows m then s.drainQueue else some s).bind fun s =>
      let s := { s with allocated := m.serial + 1 }
      let s := if s.task.Oversize m then s else s.insert m
      if s.link = .idle then s.sendNextRequest else some s

/-- One operation. -/
def step (s : Sender) : TaskOp → Option Sender
  | .queue packet => s.queue packet
  | .sendNextRequest => s.sendNextRequest
  | .ackPending => s.ackPending
  | .reschedule =>
    if s.task.state = .taskEnd then some s
    else some { s with task := s.task.reschedule, link := .off }
  | .drainQueue => s.drainQueue
  | .connect => some { s with task := { s.task with state := .taskRunning }, link := .idle }
  | .sessionEnd => some { s with link := .ended }
  | .stop =>
    if s.task.state = .taskEnd then some s else some { s with task := s.task.stop, link := .off }

/-- When an operation may take place: a request is sent on an idle session only, and a session
connects only once the task is rescheduled. -/
def Enabled (s : Sender) : TaskOp → Prop
  | .sendNextRequest => s.link = .idle
  | .connect => s.link = .off
  | .sessionEnd => s.link = .idle ∨ s.link = .busy
  | _ => True

instance (s : Sender) : (op : TaskOp) → Decidable (s.Enabled op)
  | .sendNextRequest => inferInstanceAs (Decidable (s.link = .idle))
  | .connect => inferInstanceAs (Decidable (s.link = .off))
  | .sessionEnd => inferInstanceAs (Decidable (s.link = .idle ∨ s.link = .busy))
  | .queue _ => .isTrue trivial
  | .ackPending => .isTrue trivial
  | .reschedule => .isTrue trivial
  | .drainQueue => .isTrue trivial
  | .stop => .isTrue trivial

/-! ### The history -/

/-- The requests sent. -/
def requests (history : List QueueEvent) : List Request :=
  history.filterMap fun
    | .send request => some request
    | _ => none

/-- The items of the last request. -/
def lastRequest (history : List QueueEvent) : List MimeContent :=
  ((requests history).getLast?.map Request.items).getD []

/-- The items sent, in the order in which each one was sent first. -/
def firstSends (history : List QueueEvent) : List MimeContent :=
  (requests history).foldl (fun sent request => sent ++ request.items.filter (· ∉ sent)) []

theorem requests_append_send (history : List QueueEvent) (request : Request) :
    requests (history ++ [.send request]) = requests history ++ [request] := by
  rw [requests, List.filterMap_append]
  rfl

theorem lastRequest_append_send (history : List QueueEvent) (request : Request) :
    lastRequest (history ++ [.send request]) = request.items := by
  rw [lastRequest, requests_append_send, List.getLast?_append_of_ne_nil _ (by simp)]
  rfl

theorem firstSends_append_send (history : List QueueEvent) (request : Request) :
    firstSends (history ++ [.send request]) =
      firstSends history ++ request.items.filter (· ∉ firstSends history) := by
  rw [firstSends, requests_append_send, List.foldl_append]
  rfl

/-- Other events than a request. -/
theorem requests_append_of_ne_send (history : List QueueEvent) {event : QueueEvent}
    (h : ∀ request, event ≠ .send request) : requests (history ++ [event]) = requests history := by
  rw [requests, List.filterMap_append]
  cases event with
  | send request => exact absurd rfl (h request)
  | _ => exact List.append_nil _

/-! ### The invariant -/

/-- What a request declares and holds. -/
structure SoundRequest (bulkMaxSize : ℕ) (r : Request) : Prop where
  items_ne_nil : r.items ≠ []
  length_body : r.body.length = r.contentLength
  bulk : bulkMaxSize ≠ 0 → r.body = r.items.flatMap (fun m => m.packet.data ++ [LF]) ∧
    r.contentLength = mimeSize r.items + r.items.length ∧ r.contentLength ≤ bulkMaxSize

/-- What holds of the items of a queue and of its history, `allocated` items having been made. -/
structure SoundItems (mimeq : List MimeContent) (bulkMaxSize allocated : ℕ)
    (history : List QueueEvent) : Prop where
  serials : mimeq.Pairwise fun m m' => m.serial < m'.serial
  serial_lt : ∀ m ∈ mimeq, m.serial < allocated
  fits : bulkMaxSize ≠ 0 → ∀ m ∈ mimeq, m.len + 1 ≤ bulkMaxSize
  sound_requests : ∀ r ∈ requests history, SoundRequest bulkMaxSize r
  sorted : (firstSends history).Pairwise fun m m' => m.serial < m'.serial
  sent : ∀ m ∈ firstSends history, m.serial < allocated
  unsent : ∀ m ∈ mimeq, m ∉ firstSends history → ∀ m' ∈ firstSends history, m'.serial < m.serial

/-- The invariant of a sender. -/
structure Sound (s : Sender) : Prop where
  size : s.task.queueSize = mimeSize s.task.mimeq
  items : SoundItems s.task.mimeq s.task.bulkMaxSize s.allocated s.history
  pending_le : s.task.pending ≤ s.task.mimeq.length
  head : s.task.pending ≠ 0 → s.task.mimeq.take s.task.pending = lastRequest s.history
  quiet : s.link = .off ∨ s.link = .idle → s.task.pending = 0
  waits : s.link = .busy → s.task.pending ≠ 0
  stopped : s.task.state = .taskEnd → s.link = .off

theorem sound_new (bulkMaxSize queueMaxSize : ℕ) : (new bulkMaxSize queueMaxSize).Sound where
  size := rfl
  items := by
    constructor
    all_goals simp [new, Task.new, requests, firstSends]
  pending_le := le_rfl
  head h := absurd rfl h
  quiet _ := rfl
  waits h := by contradiction
  stopped h := by contradiction

/-- Items leave the queue, and something other than a request is recorded. -/
theorem SoundItems.sublist {mimeq mimeq' : List MimeContent} {bulkMaxSize allocated : ℕ}
    {history : List QueueEvent} (h : SoundItems mimeq bulkMaxSize allocated history)
    (hsub : mimeq'.Sublist mimeq) {event : QueueEvent} (hevent : ∀ r, event ≠ .send r) :
    SoundItems mimeq' bulkMaxSize allocated (history ++ [event]) := by
  have hrequests := requests_append_of_ne_send history hevent
  constructor
  · exact h.serials.sublist hsub
  · exact fun m hm => h.serial_lt m (hsub.subset hm)
  · exact fun hbulk m hm => h.fits hbulk m (hsub.subset hm)
  · rw [hrequests]
    exact h.sound_requests
  · rw [firstSends, hrequests]
    exact h.sorted
  · rw [firstSends, hrequests]
    exact h.sent
  · rw [firstSends, hrequests]
    exact fun m hm => h.unsent m (hsub.subset hm)

/-- An item is allocated, and put in the queue if a bulk request can hold it. -/
theorem SoundItems.insert {mimeq : List MimeContent} {bulkMaxSize allocated : ℕ}
    {history : List QueueEvent} (h : SoundItems mimeq bulkMaxSize allocated history)
    {m : MimeContent} (hserial : m.serial = allocated)
    (hfits : bulkMaxSize ≠ 0 → m.len + 1 ≤ bulkMaxSize) :
    SoundItems (mimeq ++ [m]) bulkMaxSize (allocated + 1)
      (history ++ [QueueEvent.insert m]) := by
  have hrequests : requests (history ++ [.insert m]) = requests history :=
    requests_append_of_ne_send history (by simp)
  have hnew (P : MimeContent → Prop) (hm : P m) (hmem : ∀ m' ∈ mimeq, P m') :
      ∀ m' ∈ mimeq ++ [m], P m' := by
    simpa [or_imp, forall_and] using ⟨hmem, hm⟩
  constructor
  · refine List.pairwise_append.mpr ⟨h.serials, List.pairwise_singleton _ _, ?_⟩
    intro m' hm' m'' hm''
    rw [List.mem_singleton.mp hm'', hserial]
    exact h.serial_lt m' hm'
  · refine hnew _ (by rw [hserial]; exact Nat.lt_succ_self _) ?_
    exact fun m' hm' => Nat.lt_succ_of_lt (h.serial_lt m' hm')
  · exact fun hbulk => hnew _ (hfits hbulk) (h.fits hbulk)
  · rw [hrequests]
    exact h.sound_requests
  · rw [firstSends, hrequests]
    exact h.sorted
  · rw [firstSends, hrequests]
    exact fun m' hm' => Nat.lt_succ_of_lt (h.sent m' hm')
  · rw [firstSends, hrequests]
    refine hnew _ ?_ h.unsent
    intro _ m' hm'
    rw [hserial]
    exact h.sent m' hm'

theorem SoundItems.allocate {mimeq : List MimeContent} {bulkMaxSize allocated : ℕ}
    {history : List QueueEvent} (h : SoundItems mimeq bulkMaxSize allocated history) :
    SoundItems mimeq bulkMaxSize (allocated + 1) history where
  serials := h.serials
  serial_lt m hm := Nat.lt_succ_of_lt (h.serial_lt m hm)
  fits := h.fits
  sound_requests := h.sound_requests
  sorted := h.sorted
  sent m hm := Nat.lt_succ_of_lt (h.sent m hm)
  unsent := h.unsent

/-- The items of a request are at the head of the queue, so those that were never sent come after
all those that were. -/
theorem SoundItems.send {mimeq : List MimeContent} {bulkMaxSize allocated : ℕ}
    {history : List QueueEvent} (h : SoundItems mimeq bulkMaxSize allocated history) {r : Request}
    (hr : SoundRequest bulkMaxSize r) (hstart : r.items <+: mimeq) :
    SoundItems mimeq bulkMaxSize allocated (history ++ [QueueEvent.send r]) where
  serials := h.serials
  serial_lt := h.serial_lt
  fits := h.fits
  sound_requests r' hr' := by
    rw [requests_append_send, List.mem_append, List.mem_singleton] at hr'
    rcases hr' with hr' | rfl
    · exact h.sound_requests r' hr'
    · exact hr
  sorted := by
    rw [firstSends_append_send]
    refine List.pairwise_append.mpr ⟨h.sorted, ?_, ?_⟩
    · exact (h.serials.sublist hstart.sublist).sublist List.filter_sublist
    · intro m hm m' hm'
      obtain ⟨hmem, hnew⟩ := List.mem_filter.mp hm'
      exact h.unsent m' (hstart.subset hmem) (by simpa using hnew) m hm
  sent m hm := by
    rw [firstSends_append_send, List.mem_append] at hm
    rcases hm with hm | hm
    · exact h.sent m hm
    · exact h.serial_lt m (hstart.subset (List.mem_filter.mp hm).1)
  unsent m hm hnew m' hm' := by
    rw [firstSends_append_send, List.mem_append] at hnew hm'
    rw [not_or] at hnew
    rcases hm' with hm' | hm'
    · exact h.unsent m hm hnew.1 m' hm'
    · obtain ⟨rest, rfl⟩ := hstart
      refine (List.pairwise_append.mp h.serials).2.2 m' (List.mem_filter.mp hm').1 m ?_
      refine (List.mem_append.mp hm).resolve_left ?_
      intro hitem
      exact hnew.2 (List.mem_filter.mpr ⟨hitem, by simpa using hnew.1⟩)

/-! ### What each operation keeps -/

variable {s s' : Sender}

/-- **A drain** keeps the items that wait for a reply. -/
theorem Sound.drainQueue (h : s.Sound) :
    ∃ s', s.drainQueue = some s' ∧ s'.Sound ∧
      s'.task.mimeq = s.task.mimeq.take s.task.pending ∧ s'.allocated = s.allocated := by
  have hdrain : s.drainQueue = some
      { s with
        task := { s.task with
          mimeq := s.task.mimeq.take s.task.pending
          queueSize := mimeSize (s.task.mimeq.take s.task.pending) }
        history := s.history ++ [.drain (s.task.mimeq.drop s.task.pending)] } := by
    rw [Sender.drainQueue, Task.drainQueue, Task.popPending_eq,
      if_pos (Nat.sub_eq_zero_of_le h.pending_le)]
    rfl
  refine ⟨_, hdrain, ?_, rfl, rfl⟩
  constructor
  · rfl
  · exact h.items.sublist (List.take_sublist _ _) (by simp)
  · change s.task.pending ≤ (s.task.mimeq.take s.task.pending).length
    rw [List.length_take, min_eq_left h.pending_le]
  · intro hne
    change (s.task.mimeq.take s.task.pending).take s.task.pending = _
    rw [List.take_take, min_self, h.head hne, lastRequest, lastRequest,
      requests_append_of_ne_send _ (by simp)]
  · exact h.quiet
  · exact h.waits
  · exact h.stopped

/-- **An acknowledgement** removes the items that wait for a reply. -/
theorem Sound.ackPending (h : s.Sound) :
    ∃ s', s.ackPending = some s' ∧ s'.Sound ∧
      s.task.mimeq = s.task.mimeq.take s.task.pending ++ s'.task.mimeq := by
  by_cases hend : s.task.state = .taskEnd
  · refine ⟨s, by rw [Sender.ackPending, if_pos hend], h, ?_⟩
    rw [h.quiet (.inl (h.stopped hend))]
    rfl
  · have hsize : s.task.queueSize - mimeSize (s.task.mimeq.take s.task.pending) =
        mimeSize (s.task.mimeq.drop s.task.pending) := by
      have happ := Task.mimeSize_append (s.task.mimeq.take s.task.pending)
        (s.task.mimeq.drop s.task.pending)
      rw [List.take_append_drop] at happ
      rw [h.size, happ, Nat.add_sub_cancel_left]
    have hack : s.ackPending = some
        { s with
          task := { s.task with
            mimeq := s.task.mimeq.drop s.task.pending
            queueSize := mimeSize (s.task.mimeq.drop s.task.pending)
            pending := 0 }
          link := if s.link = .busy then .idle else s.link
          history := s.history ++ [.ack (s.task.mimeq.take s.task.pending)] } := by
      rw [Sender.ackPending, if_neg hend, Task.ackPending, if_neg hend, Task.popPending_eq,
        if_pos (Nat.sub_eq_zero_of_le h.pending_le), hsize]
      rfl
    refine ⟨_, hack, ?_, (List.take_append_drop _ _).symm⟩
    constructor
    · rfl
    · exact h.items.sublist (List.drop_sublist _ _) (by simp)
    · exact Nat.zero_le _
    · exact absurd rfl
    · exact fun _ => rfl
    · dsimp only
      split
      · exact fun hlink => absurd hlink (by simp)
      · next hbusy => exact fun hlink => absurd hlink hbusy
    · exact fun hstate => absurd hstate hend

/-- **An insertion.** -/
theorem Sound.insert (h : s.Sound) {m : MimeContent} (hserial : m.serial = s.allocated)
    (hsize : ¬ s.task.Oversize m) :
    Sound (Sender.insert { s with allocated := s.allocated + 1 } m) := by
  constructor
  · change s.task.queueSize + m.len = mimeSize (s.task.mimeq ++ [m])
    rw [Task.mimeSize_append, h.size, mimeSize, mimeSize, List.map_singleton, List.sum_singleton]
  · refine h.items.insert hserial ?_
    intro hbulk
    have hle : ¬ m.len > s.task.bulkMaxSize - 1 := fun hgt => hsize ⟨hbulk, hgt⟩
    omega
  · change s.task.pending ≤ (s.task.mimeq ++ [m]).length
    rw [List.length_append]
    exact le_trans h.pending_le (Nat.le_add_right _ _)
  · intro hne
    change (s.task.mimeq ++ [m]).take s.task.pending = lastRequest (s.history ++ [.insert m])
    rw [List.take_append_of_le_length h.pending_le, h.head hne, lastRequest, lastRequest,
      requests_append_of_ne_send _ (by simp)]
  · exact h.quiet
  · exact h.waits
  · exact h.stopped

/-- A request takes the items at the head of the queue. -/
theorem exists_sendNextRequest (h : s.Sound) (hlink : s.link = .idle) (hne : s.task.mimeq ≠ []) :
    ∃ r : Request, SoundRequest s.task.bulkMaxSize r ∧ r.items <+: s.task.mimeq ∧
      s.sendNextRequest = some
        { s with
          task := { s.task with pending := r.items.length }
          link := .busy
          history := s.history ++ [.send r] } := by
  have hpending : s.task.pending = 0 := h.quiet (.inr hlink)
  obtain ⟨m, mimeq, hmimeq⟩ := List.exists_cons_of_ne_nil hne
  by_cases hbulk : s.task.bulkMaxSize = 0
  · refine ⟨⟨m.len, [m], m.packet.data⟩, ⟨by simp, rfl, absurd hbulk⟩, ⟨mimeq, hmimeq.symm⟩, ?_⟩
    rw [Sender.sendNextRequest, if_neg (not_not.mpr hlink), Task.sendNextRequest,
      if_neg (not_not.mpr hpending), if_neg (not_not.mpr hbulk)]
    simp only [hmimeq]
    rfl
  · have hfits : m.len + 1 ≤ s.task.bulkMaxSize :=
      h.items.fits hbulk m (hmimeq ▸ List.mem_cons_self)
    have hcount : (Task.bulkCount s.task.bulkMaxSize 0 s.task.mimeq).2 ≠ 0 := by
      rw [hmimeq]
      exact Task.bulkCount_ne_zero hfits mimeq
    have hsize := Task.bulkCount_size s.task.bulkMaxSize 0 s.task.mimeq
    rw [Nat.zero_add] at hsize
    refine ⟨⟨_, s.task.mimeq.take _, _⟩, ⟨?_, hsize.symm, fun _ => ⟨rfl, ?_, ?_⟩⟩,
      List.take_prefix _ _, ?_⟩
    · intro hnil
      exact (List.take_eq_nil_iff.mp hnil).elim hcount hne
    · exact hsize.trans (Task.length_bulkBody _)
    · exact Task.bulkCount_le (Nat.zero_le _) _
    · rw [Sender.sendNextRequest, if_neg (not_not.mpr hlink), Task.sendNextRequest,
        if_neg (not_not.mpr hpending), if_pos hbulk]
      dsimp only
      rw [if_neg hcount, hpending, Nat.zero_add]
      rfl

/-- **A request.** -/
theorem Sound.sendNextRequest (h : s.Sound) (hlink : s.link = .idle) :
    ∃ s', s.sendNextRequest = some s' ∧ s'.Sound ∧ s'.task.mimeq = s.task.mimeq := by
  by_cases hne : s.task.mimeq = []
  · refine ⟨s, ?_, h, rfl⟩
    rw [Sender.sendNextRequest, if_neg (not_not.mpr hlink), Task.sendNextRequest,
      if_neg (not_not.mpr (h.quiet (.inr hlink)))]
    by_cases hbulk : s.task.bulkMaxSize = 0
    · rw [if_neg (not_not.mpr hbulk)]
      simp only [hne]
      rfl
    · rw [if_pos hbulk, hne]
      rfl
  · obtain ⟨r, hr, hstart, hsend⟩ := exists_sendNextRequest h hlink hne
    refine ⟨_, hsend, ?_, rfl⟩
    constructor
    · exact h.size
    · exact h.items.send hr hstart
    · exact hstart.length_le
    · intro _
      rw [lastRequest_append_send]
      exact (List.prefix_iff_eq_take.mp hstart).symm
    · simp
    · simpa using hr.items_ne_nil
    · intro hstate
      have hoff := h.stopped hstate
      rw [hlink] at hoff
      contradiction

/-- The session changes, and with it the state of the task and the count of the items sent. -/
theorem Sound.relink (h : s.Sound) {state : TaskState} {pending : ℕ} {link : Link}
    (hpending : pending = 0 ∨ pending = s.task.pending)
    (hquiet : link = .off ∨ link = .idle → pending = 0) (hbusy : link ≠ .busy)
    (hstate : state = .taskEnd → link = .off) :
    Sound
      { s with task := { s.task with state := state, pending := pending }, link := link } where
  size := h.size
  items := h.items
  pending_le := by
    rcases hpending with rfl | rfl
    · exact Nat.zero_le _
    · exact h.pending_le
  head hne := by
    rcases hpending with rfl | rfl
    · exact absurd rfl hne
    · exact h.head hne
  quiet := hquiet
  waits hlink := absurd hlink hbusy
  stopped := hstate

/-- The second part of `ntrip_task_queue`, once there is room. -/
theorem Sound.queueInsert (h : s.Sound) (packet : Packet) :
    ∃ s', (let m : MimeContent := ⟨s.allocated, packet⟩
      let s := { s with allocated := m.serial + 1 }
      let s := if s.task.Oversize m then s else s.insert m
      if s.link = .idle then s.sendNextRequest else some s) = some s' ∧
        s'.Sound ∧ s.task.mimeq <+: s'.task.mimeq := by
  have hinsert : ∃ s₁ : Sender,
      (if s.task.Oversize ⟨s.allocated, packet⟩ then { s with allocated := s.allocated + 1 }
        else Sender.insert { s with allocated := s.allocated + 1 } ⟨s.allocated, packet⟩) = s₁ ∧
      s₁.Sound ∧ s.task.mimeq <+: s₁.task.mimeq := by
    refine ⟨_, rfl, ?_⟩
    split
    · refine ⟨?_, List.prefix_refl _⟩
      exact ⟨h.size, h.items.allocate, h.pending_le, h.head, h.quiet, h.waits, h.stopped⟩
    · next hsize => exact ⟨h.insert rfl hsize, List.prefix_append _ _⟩
  obtain ⟨s₁, hs₁, hsound, hstart⟩ := hinsert
  dsimp only
  rw [hs₁]
  split
  · next hidle =>
    obtain ⟨s', hsend, hsound', hmimeq⟩ := hsound.sendNextRequest hidle
    exact ⟨s', hsend, hsound', hmimeq ▸ hstart⟩
  · exact ⟨s₁, rfl, hsound, hstart⟩

/-- **`ntrip_task_queue`.** Items leave the queue only if it would overflow, and then those that
wait for a reply stay. -/
theorem Sound.queue (h : s.Sound) (packet : Packet) :
    ∃ s', s.queue packet = some s' ∧ s'.Sound ∧
      s.task.mimeq.take s.task.pending <+: s'.task.mimeq ∧
      (¬ s.task.Overflows ⟨s.allocated, packet⟩ → s.task.mimeq <+: s'.task.mimeq) := by
  rw [Sender.queue]
  split
  · exact ⟨s, rfl, h, List.take_prefix _ _, fun _ => List.prefix_refl _⟩
  · dsimp only
    split
    · next hover =>
      obtain ⟨s₁, hdrain, hsound, hmimeq, hallocated⟩ := h.drainQueue
      obtain ⟨s', hinsert, hsound', hstart⟩ := hsound.queueInsert packet
      rw [hallocated] at hinsert
      refine ⟨s', by rw [hdrain]; exact hinsert, hsound', hmimeq ▸ hstart, absurd hover⟩
    · obtain ⟨s', hinsert, hsound', hstart⟩ := h.queueInsert packet
      exact ⟨s', hinsert, hsound', (List.take_prefix _ _).trans hstart, fun _ => hstart⟩

/-- **One operation** keeps the invariant and fails no assertion. -/
theorem Sound.step (h : s.Sound) {op : TaskOp} (hop : s.Enabled op) :
    ∃ s', s.step op = some s' ∧ s'.Sound := by
  cases op with
  | queue packet =>
    obtain ⟨s', hstep, hsound, -⟩ := h.queue packet
    exact ⟨s', hstep, hsound⟩
  | sendNextRequest =>
    obtain ⟨s', hstep, hsound, -⟩ := h.sendNextRequest hop
    exact ⟨s', hstep, hsound⟩
  | ackPending =>
    obtain ⟨s', hstep, hsound, -⟩ := h.ackPending
    exact ⟨s', hstep, hsound⟩
  | drainQueue =>
    obtain ⟨s', hstep, hsound, -⟩ := h.drainQueue
    exact ⟨s', hstep, hsound⟩
  | reschedule =>
    rw [Sender.step]
    split
    · exact ⟨s, rfl, h⟩
    · next hend =>
      refine ⟨_, rfl, ?_⟩
      rw [Task.reschedule, if_neg hend]
      exact h.relink (.inl rfl) (fun _ => rfl) (by simp) fun _ => rfl
  | connect =>
    have hpending : s.task.pending = 0 := h.quiet (.inl hop)
    exact ⟨_, rfl, h.relink (.inr rfl) (fun _ => hpending) (by simp) (by simp)⟩
  | sessionEnd =>
    have hstate : s.task.state ≠ .taskEnd := by
      intro hend
      have hoff := h.stopped hend
      rcases hop with hop | hop <;> rw [hop] at hoff <;> contradiction
    refine ⟨_, rfl, h.relink (.inr rfl) (by simp) (by simp) fun hend => absurd hend hstate⟩
  | stop =>
    rw [Sender.step]
    split
    · exact ⟨s, rfl, h⟩
    · next hend =>
      refine ⟨_, rfl, ?_⟩
      rw [Task.stop, if_neg hend]
      exact h.relink (.inl rfl) (fun _ => rfl) (by simp) fun _ => rfl

/-- The runs of a task with some limits. -/
abbrev Reachable (bulkMaxSize queueMaxSize : ℕ) : Sender → Prop :=
  Transition.Reachable (· = new bulkMaxSize queueMaxSize) Enabled step

/-- **The invariant of every sender reached.** -/
theorem reachable_sound {bulkMaxSize queueMaxSize : ℕ}
    (h : Reachable bulkMaxSize queueMaxSize s) : s.Sound := by
  refine h.invariant ?_ ?_
  · rintro _ rfl
    exact sound_new bulkMaxSize queueMaxSize
  · intro s op s' hs hop hstep
    obtain ⟨s₁, hstep₁, hsound⟩ := hs.step hop
    rw [hstep] at hstep₁
    exact Option.some.inj hstep₁ ▸ hsound

/-- How an item may leave the queue. -/
theorem Sound.mem_of_step (h : s.Sound) {op : TaskOp} (hop : s.Enabled op)
    (hstep : s.step op = some s') {m : MimeContent} (hm : m ∈ s.task.mimeq)
    (hgone : m ∉ s'.task.mimeq) :
    (op = .ackPending ∧ m ∈ lastRequest s.history) ∨
      (op = .drainQueue ∨ ∃ packet, op = .queue packet ∧ s.task.Overflows ⟨s.allocated, packet⟩) ∧
        s.task.mimeq.take s.task.pending <+: s'.task.mimeq := by
  cases op with
  | queue packet =>
    obtain ⟨s₁, hqueue, -, hhead, hkeep⟩ := h.queue packet
    obtain rfl := Option.some.inj (hqueue.symm.trans hstep)
    refine .inr ⟨.inr ⟨packet, rfl, ?_⟩, hhead⟩
    by_contra hover
    exact hgone ((hkeep hover).subset hm)
  | sendNextRequest =>
    obtain ⟨s₁, hsend, -, hmimeq⟩ := h.sendNextRequest hop
    obtain rfl := Option.some.inj (hsend.symm.trans hstep)
    exact absurd (hmimeq ▸ hm) hgone
  | ackPending =>
    obtain ⟨s₁, hack, -, hmimeq⟩ := h.ackPending
    obtain rfl := Option.some.inj (hack.symm.trans hstep)
    refine .inl ⟨rfl, ?_⟩
    rw [hmimeq] at hm
    have hitem := (List.mem_append.mp hm).resolve_right hgone
    rw [← h.head]
    · exact hitem
    · intro hzero
      rw [hzero] at hitem
      simp at hitem
  | drainQueue =>
    obtain ⟨s₁, hdrain, -, hmimeq, -⟩ := h.drainQueue
    obtain rfl := Option.some.inj (hdrain.symm.trans hstep)
    exact .inr ⟨.inl rfl, hmimeq ▸ List.prefix_refl _⟩
  | reschedule =>
    rw [Sender.step, Task.reschedule] at hstep
    split at hstep <;> exact absurd (Option.some.inj hstep ▸ hm) hgone
  | connect => exact absurd (Option.some.inj hstep ▸ hm) hgone
  | sessionEnd => exact absurd (Option.some.inj hstep ▸ hm) hgone
  | stop =>
    rw [Sender.step, Task.stop] at hstep
    split at hstep <;> exact absurd (Option.some.inj hstep ▸ hm) hgone

/-- **Accounting of the queue and delivery of the items.** In every state of every run:
* the size of the queue is that of its items, and those that wait for a reply are in it;
* no assertion fails, whatever comes next;
* an acknowledgement removes the items of the last request, if they still wait for it, and nothing
  else; they do as long as the session waits;
* items were sent first in the order in which they were inserted;
* an item leaves the queue by an acknowledgement, or by a drain that keeps the items that wait, and
  which `ntrip_task_queue` calls only if the queue would overflow;
* the `Content-Length` of each request is the length of its body; that of a bulk request is the
  length of its items and of a newline after each, and is in the limit;
* on an idle session, a queue that is not empty yields a request that is not. -/
theorem reachable_accounting {bulkMaxSize queueMaxSize : ℕ}
    (h : Reachable bulkMaxSize queueMaxSize s) :
    s.task.queueSize = mimeSize s.task.mimeq ∧
    s.task.pending ≤ s.task.mimeq.length ∧
    (∀ op, s.Enabled op → ∃ s', s.step op = some s') ∧
    (∃ s', s.step .ackPending = some s' ∧
      s.task.mimeq = (if s.task.pending = 0 then [] else lastRequest s.history) ++ s'.task.mimeq) ∧
    (s.link = .busy → s.task.pending ≠ 0) ∧
    (firstSends s.history).Pairwise (fun m m' => m.serial < m'.serial) ∧
    (∀ op s', s.Enabled op → s.step op = some s' →
      ∀ m ∈ s.task.mimeq, m ∉ s'.task.mimeq →
        (op = .ackPending ∧ m ∈ lastRequest s.history) ∨
        (op = .drainQueue ∨
            ∃ packet, op = .queue packet ∧ s.task.Overflows ⟨s.allocated, packet⟩) ∧
          s.task.mimeq.take s.task.pending <+: s'.task.mimeq) ∧
    (∀ r ∈ requests s.history, r.contentLength = r.body.length ∧ (s.task.bulkMaxSize ≠ 0 →
      r.contentLength = mimeSize r.items + r.items.length ∧
        r.contentLength ≤ s.task.bulkMaxSize)) ∧
    (s.link = .idle → s.task.mimeq ≠ [] → ∃ s' r, s.step .sendNextRequest = some s' ∧
      s'.history = s.history ++ [.send r] ∧ r.items ≠ [] ∧ r.items <+: s.task.mimeq) := by
  have hs := reachable_sound h
  refine ⟨hs.size, hs.pending_le, ?_, ?_, hs.waits, hs.items.sorted, ?_, ?_, ?_⟩
  · intro op hop
    obtain ⟨s', hstep, -⟩ := hs.step hop
    exact ⟨s', hstep⟩
  · obtain ⟨s', hstep, -, hmimeq⟩ := hs.ackPending
    refine ⟨s', hstep, ?_⟩
    by_cases hzero : s.task.pending = 0
    · rw [if_pos hzero]
      rwa [hzero, List.take_zero] at hmimeq
    · rw [if_neg hzero]
      rwa [hs.head hzero] at hmimeq
  · intro op s' hop hstep m hm hgone
    exact hs.mem_of_step hop hstep hm hgone
  · intro r hr
    have hsound := hs.items.sound_requests r hr
    exact ⟨hsound.length_body.symm, fun hbulk => (hsound.bulk hbulk).2⟩
  · intro hlink hne
    obtain ⟨r, hr, hstart, hsend⟩ := exists_sendNextRequest hs hlink hne
    exact ⟨_, r, hsend, rfl, hr.items_ne_nil, hstart⟩

/-- An item is sent and acknowledged; another one is sent, the session ends, and it is sent again
with a third one. -/
def resent : List TaskOp :=
  [.connect, .queue (.new [65]), .ackPending, .queue (.new [66]), .queue (.new [67, 68]),
    .sessionEnd, .reschedule, .connect, .sendNextRequest]

theorem reachable_accounting_resent :
    ∃ s, Reachable 10 100 s ∧ s.link = .busy ∧
      requests s.history = [⟨2, [⟨0, .new [65]⟩], [65, LF]⟩, ⟨2, [⟨1, .new [66]⟩], [66, LF]⟩,
        ⟨5, [⟨1, .new [66]⟩, ⟨2, .new [67, 68]⟩], [66, LF, 67, 68, LF]⟩] ∧
      s.task.queueSize = mimeSize s.task.mimeq ∧
      (firstSends s.history).Pairwise (fun m m' => m.serial < m'.serial) := by
  obtain ⟨s, hrun⟩ : ∃ s, resent.foldlM
      (fun s op => if Enabled s op then step s op else none) (new 10 100) = some s := ⟨_, rfl⟩
  have hreach : Reachable 10 100 s := Transition.reachable_of_foldlM (.refl rfl) hrun
  obtain ⟨hsize, -, -, -, -, hsorted, -⟩ := reachable_accounting hreach
  obtain rfl := Option.some.inj hrun
  exact ⟨_, hreach, rfl, by decide, hsize, hsorted⟩

end Sender

end ChilopodCaster
