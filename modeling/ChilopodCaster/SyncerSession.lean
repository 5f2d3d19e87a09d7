import ChilopodCaster.ReplyText
import ChilopodCaster.TaskSend

/-!
# The session of a syncer

A syncer sends the messages of its queue one at a time. The status of a reply acknowledges the
message that it answers, which leaves the queue, and the end of the reply makes the syncer send the
next one. Messages are queued at any time: before a reply, inside it, or when nothing is sent.

## Main definitions

* `Syncs` — the session of a syncer, on a connection that is kept
* `Sent` — nothing of a reply has been read
* `Receives` — a reply has been read up to somewhere

## Main results

* `Syncs.exists_taskQueue` — a message is queued
* `Receives.feed` — a part of a reply is read
-/

namespace ChilopodCaster

namespace Ntripcli

open ChunkDecode Pieces
open Ntripsrv (replyLine replyHeaders)

/-! ### The queue -/

namespace ClientTask

variable {F : Type} {task task' : ClientTask F}

/-- The queue of a syncer, which sends its messages one at a time. -/
structure QueueOk (task : ClientTask F) : Prop where
  bulkMaxSize : task.bulkMaxSize = 0
  queueSize : task.queueSize = mimeSize task.mimeq
  pending : task.pending ≤ task.mimeq.length
  ordered : task.mimeq.Pairwise fun m m' => m.serial < m'.serial
  allocated : ∀ m ∈ task.mimeq, m.serial < task.allocated

/-- The messages that wait for a reply. -/
def inFlight (task : ClientTask F) : List MimeContent := task.mimeq.take task.pending

/-- The messages that have not been sent. -/
def unsent (task : ClientTask F) : List MimeContent := task.mimeq.drop task.pending

theorem inFlight_append_unsent (task : ClientTask F) : task.inFlight ++ task.unsent = task.mimeq :=
  List.take_append_drop _ _

/-- What is pending is acknowledged. -/
theorem QueueOk.ackPending (h : task.QueueOk) (hrun : task.state = .taskRunning) :
    task.toTask.ackPending = some ({ task.toTask with
      mimeq := task.unsent
      queueSize := mimeSize task.unsent
      pending := 0 }, task.inFlight) := by
  have hsize : task.queueSize - mimeSize task.inFlight = mimeSize task.unsent := by
    rw [h.queueSize, ← inFlight_append_unsent task, Task.mimeSize_append]
    exact Nat.add_sub_cancel_left _ _
  have hstate : ¬ task.state = .taskEnd := by
    rw [hrun]
    decide
  rw [Task.ackPending, if_neg hstate, Task.popPending_eq]
  dsimp only
  rw [if_pos (Nat.sub_eq_zero_of_le h.pending), ← inFlight, hsize]
  rfl

/-- What is not pending is dropped. -/
theorem QueueOk.drainQueue (h : task.QueueOk) :
    task.toTask.drainQueue = some ({ task.toTask with
      mimeq := task.inFlight
      queueSize := mimeSize task.inFlight }, task.unsent) := by
  rw [Task.drainQueue, Task.popPending_eq]
  dsimp only
  rw [if_pos (Nat.sub_eq_zero_of_le h.pending)]
  rfl

/-- What is first in the queue is sent. -/
theorem QueueOk.sendNextRequest (h : task.QueueOk) (hpending : task.pending = 0) :
    ∃ request, task.toTask.sendNextRequest =
        some ({ task.toTask with pending := if task.mimeq = [] then 0 else 1 }, request) ∧
      (request = none ↔ task.mimeq = []) := by
  rw [Task.sendNextRequest, if_neg (not_not_intro hpending), if_neg (not_not_intro h.bulkMaxSize)]
  cases hmimeq : task.mimeq with
  | nil =>
    refine ⟨none, ?_, by simp⟩
    rw [if_pos rfl, ← hpending]
  | cons m mimeq =>
    refine ⟨some ⟨m.len, [m], m.packet.data⟩, ?_, by simp⟩
    rw [if_neg (List.cons_ne_nil _ _)]
    show some (({ task.toTask with mimeq := m :: mimeq, pending := 1 } : Task), _) = _
    rw [← hmimeq]

theorem QueueOk.acked (h : task.QueueOk) : QueueOk { task with
    mimeq := task.unsent
    queueSize := mimeSize task.unsent
    pending := 0 } where
  bulkMaxSize := h.bulkMaxSize
  queueSize := rfl
  pending := Nat.zero_le _
  ordered := h.ordered.sublist (List.drop_sublist _ _)
  allocated m hm := h.allocated m (List.mem_of_mem_drop hm)

theorem QueueOk.sent (h : task.QueueOk) : QueueOk { task with
    pending := if task.mimeq = [] then 0 else 1 } where
  bulkMaxSize := h.bulkMaxSize
  queueSize := h.queueSize
  pending := by
    show (if task.mimeq = [] then 0 else 1) ≤ task.mimeq.length
    split
    · exact Nat.zero_le _
    · next hne => exact List.length_pos_iff.mpr hne
  ordered := h.ordered
  allocated := h.allocated

/-- What an overflow leaves in the queue, and the queue otherwise. -/
def kept (task : ClientTask F) (packet : Packet) : List MimeContent :=
  if task.Overflows ⟨task.allocated, packet⟩ then task.inFlight else task.mimeq

/-- A message is queued. -/
def queued (task : ClientTask F) (packet : Packet) : ClientTask F :=
  { task with
    mimeq := task.kept packet ++ [⟨task.allocated, packet⟩]
    queueSize := mimeSize (task.kept packet ++ [⟨task.allocated, packet⟩])
    allocated := task.allocated + 1 }

theorem kept_sublist (task : ClientTask F) (packet : Packet) :
    (task.kept packet).Sublist task.mimeq := by
  rw [kept]
  split
  · exact List.take_sublist _ _
  · exact List.Sublist.refl _

theorem take_kept (task : ClientTask F) (packet : Packet) :
    (task.kept packet).take task.pending = task.inFlight := by
  rw [kept]
  split
  · rw [inFlight, List.take_take, Nat.min_self]
  · rfl

theorem QueueOk.pending_kept (h : task.QueueOk) (packet : Packet) :
    task.pending ≤ (task.kept packet).length := by
  have htake := congrArg List.length (task.take_kept packet)
  have hpending := h.pending
  rw [inFlight, List.length_take, List.length_take] at htake
  omega

theorem QueueOk.queued (h : task.QueueOk) (packet : Packet) : (task.queued packet).QueueOk where
  bulkMaxSize := h.bulkMaxSize
  queueSize := rfl
  pending := by
    show task.pending ≤ (task.kept packet ++ [_]).length
    rw [List.length_append]
    exact Nat.le_add_right_of_le (h.pending_kept packet)
  ordered := by
    refine List.pairwise_append.mpr ⟨h.ordered.sublist (task.kept_sublist packet),
      List.pairwise_singleton _ _, fun m hm m' hm' => ?_⟩
    rw [List.mem_singleton.mp hm']
    exact h.allocated m ((task.kept_sublist packet).subset hm)
  allocated m hm := by
    rcases List.mem_append.mp hm with hm | hm
    · exact (h.allocated m ((task.kept_sublist packet).subset hm)).trans (Nat.lt_succ_self _)
    · rw [List.mem_singleton.mp hm]
      exact Nat.lt_succ_self _

theorem QueueOk.inFlight_queued (h : task.QueueOk) (packet : Packet) :
    (task.queued packet).inFlight = task.inFlight := by
  rw [← task.take_kept packet]
  exact List.take_append_of_le_length (h.pending_kept packet)

theorem QueueOk.unsent_queued (h : task.QueueOk) (packet : Packet) :
    (task.queued packet).unsent =
      (if task.Overflows ⟨task.allocated, packet⟩ then [] else task.unsent) ++
        [⟨task.allocated, packet⟩] := by
  rw [unsent]
  refine (List.drop_append_of_le_length (h.pending_kept packet)).trans (congrArg (· ++ _) ?_)
  rw [kept]
  split
  · rw [inFlight, List.drop_take, Nat.sub_self, List.take_zero]
  · rfl

end ClientTask

namespace Client

variable {F : Type} {s s' : Client F} {env : Env F} {i : ℕ} {threads : Bool} {date : CString}

/-- The task has another queue. -/
def setTask (s : Client F) (task : ClientTask F) : Client F := { s with task := task }

/-- A message goes to the queue, and an idle session sends it. -/
theorem taskQueue_eq (h : s.task.QueueOk) (hrun : s.task.state = .taskRunning) (packet : Packet) :
    s.taskQueue packet = (s.setTask (s.task.queued packet)).sendIfIdle := by
  let m : MimeContent := ⟨s.task.allocated, packet⟩
  have hstate : ¬ s.task.state = .taskEnd := by
    rw [hrun]
    decide
  have hinsert (queue : Task) (hqueue : queue = { s.task.toTask with
        mimeq := s.task.kept packet
        queueSize := mimeSize (s.task.kept packet) }) :
      s.insertItem queue m = s.setTask (s.task.queued packet) := by
    have hsize : ¬ queue.Oversize m := by
      rw [hqueue]
      exact fun hover => hover.1 h.bulkMaxSize
    rw [insertItem, if_neg hsize, hqueue, setTask, ClientTask.queued, Task.insert,
      Task.mimeSize_append]
    rfl
  rw [taskQueue, if_neg hstate]
  dsimp only
  by_cases hover : s.task.Overflows m
  · rw [if_pos hover, h.drainQueue, Option.map_some, Option.bind_some]
    refine congrArg sendIfIdle (hinsert _ ?_)
    rw [ClientTask.kept, if_pos hover]
  · rw [if_neg hover, Option.bind_some]
    refine congrArg sendIfIdle (hinsert _ ?_)
    rw [ClientTask.kept, if_neg hover, ← h.queueSize]

/-! ### The session -/

/-- The content of `api_sync_json`. -/
def syncContent : Ntripsrv.Content := ⟨some (cstr "application/json"), []⟩

/-- The headers of the reply to a message that was accepted. -/
def syncReplyHeaders (date : CString) : Evkeyvalq := replyHeaders date (some syncContent) true []

/-- The status of the reply. -/
def syncReplyLine : CString := replyLine (cstr "HTTP/1.1") 200 (cstr "OK")

/-- The lines of the reply. -/
def syncReplyLines (date : CString) : List CString :=
  syncReplyLine :: ((syncReplyHeaders date).map headerText ++ [[]])

/-- A syncer on a connection that is kept. -/
structure Syncs (i : ℕ) (s : Client F) : Prop where
  ready : Ready i s
  queue : s.task.QueueOk
  owner : s.task.owner = .syncer
  mountpoint : (s.heap i).mountpoint = []
  connectionKeepalive : (s.heap i).connectionKeepalive = true

/-- It has sent what is first in its queue, and nothing of the reply has been read; or there is
nothing to send. -/
structure Sent (i : ℕ) (s : Client F) : Prop extends Syncs i s where
  pending : s.task.pending = if s.task.mimeq = [] then 0 else 1
  state : (s.heap i).state = if s.task.mimeq = [] then .idleClient else .waitHttpStatus

/-- The status of the reply has been read, and these headers. -/
structure Acked (i : ℕ) (headers : Evkeyvalq) (s : Client F) : Prop extends Syncs i s where
  pending : s.task.pending = 0
  state : (s.heap i).state = .waitHttpHeader
  head : ∃ st, st.contentLength = 0 ∧ st.receivedKeepalive = false ∧
    s.heap i = headers.foldl readHeader st

/-- These lines of a reply have not been read. -/
inductive Reads (i : ℕ) (date : CString) (s : Client F) : List CString → Prop
  | status (h : Sent i s) (hne : s.task.mimeq ≠ []) : Reads i date s (syncReplyLines date)
  | headers {done todo : Evkeyvalq} (h : Acked i done s) (happend : done ++ todo =
      syncReplyHeaders date) : Reads i date s (todo.map headerText ++ [[]])

theorem Reads.syncs {lines : List CString} (h : Reads i date s lines) : Syncs i s := by
  cases h with
  | status h _ => exact h.toSyncs
  | headers h _ => exact h.toSyncs

theorem taken_syncReplyHeaders (hfits : ReplyFits env date) :
    ∀ header ∈ syncReplyHeaders date, Taken env header := by
  have hjson : Clean (cstr "application/json") ∧ (cstr "application/json").length ≤ 32 := by
    decide
  refine hfits.taken ?_ ?_
  · rintro content ⟨⟩ mimeType ⟨⟩
    exact hjson
  · rintro content ⟨⟩
    exact ⟨Nat.zero_le _, Nat.zero_le _⟩

theorem Reads.not_mem {line : CString} {lines : List CString} (h : Reads i date s (line :: lines))
    (hfits : ReplyFits env date) : LF ∉ line := by
  have hmem {todo : Evkeyvalq} (hsub : ∀ header ∈ todo, header ∈ syncReplyHeaders date)
      (hline : line ∈ todo.map headerText ++ [[]]) : LF ∉ line := by
    rcases List.mem_append.mp hline with hline | hline
    · obtain ⟨header, hheader, rfl⟩ := List.mem_map.mp hline
      exact not_mem_headerText (taken_syncReplyHeaders hfits header (hsub header hheader))
    · rw [List.mem_singleton.mp hline]
      exact List.not_mem_nil
  generalize hlines : line :: lines = left at h
  cases h with
  | status h _ =>
    rw [(List.cons.inj hlines).1]
    exact fun hlf => absurd hlf (by decide)
  | headers h happend =>
    refine hmem (fun header hheader => ?_) (hlines ▸ List.mem_cons_self)
    rw [← happend]
    exact List.mem_append_right _ hheader

/-! ### A line of the reply -/

/-- An idle session sends what is first in the queue. -/
theorem exists_sendNextRequest (hidle : (s.heap i).state = .idleClient) (hqueue : s.task.QueueOk)
    (hpending : s.task.pending = 0) :
    ∃ s', s.sendNextRequest i = some s' ∧
      s'.task = { s.task with pending := if s.task.mimeq = [] then 0 else 1 } ∧
      s'.heap i = { s.heap i with
        state := if s.task.mimeq = [] then .idleClient else .waitHttpStatus } := by
  obtain ⟨request, hsend, hnone⟩ := hqueue.sendNextRequest hpending
  rw [sendNextRequest, if_neg (not_not_intro hidle), hsend]
  cases request with
  | none =>
    refine ⟨_, rfl, rfl, ?_⟩
    show s.heap i = _
    rw [if_pos (hnone.mp rfl), ← hidle]
  | some request =>
    refine ⟨_, rfl, rfl, ?_⟩
    have hne : s.task.mimeq ≠ [] := fun hnil => absurd (hnone.mpr hnil) (by simp)
    simp only [if_neg hne]
    exact heap_modifySt_self _ i _

/-- The status of the reply. -/
theorem exists_serveLine_status (h : Sent i s) (hne : s.task.mimeq ≠ [])
    (hfits : ReplyFits env date) :
    ∃ s', serveLine env i s syncReplyLine = some s' ∧
      s'.task = { s.task with
        mimeq := s.task.unsent
        queueSize := mimeSize s.task.unsent
        pending := 0 } ∧
      s'.heap i = { readStatus [cstr "HTTP/1.1", cstr "200", cstr "OK"] syncReplyLine
          (s.heap i) with
        state := .waitHttpHeader } := by
  let f := readStatus [cstr "HTTP/1.1", cstr "200", cstr "OK"] syncReplyLine
  let s₁ := (s.modifySt i f).setQueue { s.task.toTask with
    mimeq := s.task.unsent
    queueSize := mimeSize s.task.unsent
    pending := 0 }
  have hargs : (splitArgs (toCString syncReplyLine)).take 3 =
      [cstr "HTTP/1.1", cstr "200", cstr "OK"] := by decide
  have hlen : syncReplyLine.length = 15 := by decide
  have hshort := hfits.len
  have hstate : (s.heap i).state = .waitHttpStatus := h.state.trans (if_neg hne)
  have hheap : s₁.heap i = f (s.heap i) := heap_modifySt_self s i f
  have hcode : (s₁.heap i).statusCode = 200 := by rw [hheap]; rfl
  have hcb : (s.modifySt i f).statusCb env i 200 = some s₁ := by
    have htask : (f (s.heap i)).task = true := h.ready.live.task
    rw [statusCb, heap_modifySt_self, if_pos htask, task_modifySt, h.owner]
    dsimp only
    rw [h.ready.live.st, Option.bind_some, ackPending, task_modifySt,
      h.queue.ackPending h.ready.live.running]
    exact if_neg (not_not_intro hcode)
  have hplain : Plain (s₁.heap i).toSession := by
    rw [hheap]
    exact ⟨h.ready.plain.1, h.ready.plain.2.1, rfl, h.ready.plain.2.2.2⟩
  refine ⟨s₁.setState i .waitHttpHeader, serveLine_status hstate hargs (by decide)
    (by omega) hcb hcode hplain, rfl, ?_⟩
  rw [setState, heap_modifySt_self, hheap]

/-- The headers are followed by the end of the reply: it has no content, and the connection is
kept. -/
theorem serveLine_end (hplain : Plain (s.heap i).toSession)
    (hstate : (s.heap i).state = .waitHttpHeader) (hshort : 0 < env.config.httpHeaderMaxSize)
    (howner : s.task.owner.hasLineCb = false) (hmountpoint : (s.heap i).mountpoint = [])
    (hcontent : (s.heap i).contentLength = 0) (htask : (s.heap i).task = true)
    (hkept : (s.heap i).connectionKeepalive = true ∧ (s.heap i).receivedKeepalive = true)
    {s' : Client F} (hsend : ((s.took i []).setState i .idleClient).sendNextRequest i = some s')
    (hplain' : Plain (s'.heap i).toSession) : serveLine env i s [] = some s' := by
  have hnext : lineOutcome env i s [] = .inl s' := by
    have hheap : (s.took i []).heap i =
        { s.heap i with receivedBytes := (s.heap i).receivedBytes + 2 } := by
      rw [took, heap_modifySt_self]
      rfl
    rw [lineOutcome, hstate]
    dsimp only
    rw [headerLine, if_pos List.length_nil, endHeaders, hheap]
    dsimp only
    rw [hplain.2.2.1, if_neg (by decide), afterHeaders, hheap]
    dsimp only
    rw [if_neg (not_not_intro hmountpoint), if_neg (by simp [took, howner]),
      if_neg (not_not_intro hcontent), if_neg (fun h => h.1 hplain.2.2.1), replyOver, hheap]
    dsimp only
    rw [if_pos hkept, setState, heap_modifySt_self, hheap]
    dsimp only
    rw [if_pos htask]
    exact congrArg goOn hsend
  rw [serveLine, if_pos ⟨by rw [hstate]; rfl, .inr hshort⟩, hnext]
  exact if_pos hplain'

/-- What is true after a line. -/
structure AfterLine (i : ℕ) (date : CString) (s s' : Client F) (lines : List CString) : Prop where
  queueMaxSize : s'.task.queueMaxSize = s.task.queueMaxSize
  mimeq : s'.task.mimeq = s.task.unsent
  rest : lines ≠ [] → s'.task.pending = 0 ∧ Reads i date s' lines
  sent : lines = [] → Sent i s'

theorem ready_of_serveLine {line : CString} (h : Ready i s) (hline : LF ∉ line)
    (hserve : serveLine env i s line = some s') : Ready i s' :=
  (@reads_line _ _ _ _ _ false h _ hline hserve).2

/-- The status of the reply acknowledges the message. -/
theorem Sent.exists_afterStatus (h : Sent i s) (hne : s.task.mimeq ≠ [])
    (hfits : ReplyFits env date) :
    ∃ s', serveLine env i s syncReplyLine = some s' ∧
      AfterLine i date s s' ((syncReplyHeaders date).map headerText ++ [[]]) := by
  obtain ⟨s', hserve, htask, hheap⟩ := exists_serveLine_status h hne hfits
  have hready : Ready i s' := ready_of_serveLine h.ready (by decide) hserve
  refine ⟨s', hserve, ?_, ?_, fun _ => ⟨?_, @Reads.headers _ _ _ _ [] _
    ⟨⟨hready, ?_, ?_, ?_, ?_⟩, ?_, ?_, s'.heap i, ?_, ?_, rfl⟩ rfl⟩,
    fun hnil => absurd hnil (by simp)⟩
  · rw [htask]
  · rw [htask]
  · rw [htask]
  · rw [htask]
    exact h.queue.acked
  · rw [htask, h.owner]
  · rw [hheap]
    exact h.mountpoint
  · rw [hheap]
    exact h.connectionKeepalive
  · rw [htask]
  · rw [hheap]
  · rw [hheap]
    rfl
  · rw [hheap]
    rfl

/-- The end of the reply makes the syncer send the next message. -/
theorem Acked.exists_afterEnd (h : Acked i (syncReplyHeaders date) s) (hfits : ReplyFits env date) :
    ∃ s', serveLine env i s [] = some s' ∧ AfterLine i date s s' [] := by
  obtain ⟨st, hcontent, hkeep, hst⟩ := h.head
  obtain ⟨hkeepAlive, hlen⟩ := foldl_replyHeaders (m := some syncContent) date true
    (by rintro content ⟨⟩; exact Nat.zero_le _) hkeep hcontent
  rw [← syncReplyHeaders, ← hst] at hkeepAlive hlen
  have hheap : ((s.took i []).setState i .idleClient).heap i = { s.heap i with
      receivedBytes := (s.heap i).receivedBytes + 2
      state := .idleClient } := by
    rw [setState, heap_modifySt_self, took, heap_modifySt_self]
    rfl
  obtain ⟨s', hsend, htask', hheap'⟩ := exists_sendNextRequest
    (s := (s.took i []).setState i .idleClient) (i := i) (by rw [hheap]) h.queue h.pending
  rw [hheap] at hheap'
  have hserve := serveLine_end h.ready.plain h.state (Nat.zero_lt_of_lt hfits.len)
    (by rw [h.owner]; rfl) h.mountpoint hlen h.ready.live.task
    ⟨h.connectionKeepalive, hkeepAlive⟩ hsend (by rw [hheap']; exact h.ready.plain)
  have hunsent : s.task.unsent = s.task.mimeq := by rw [ClientTask.unsent, h.pending]; rfl
  have hmimeq : s'.task.mimeq = s.task.mimeq := by rw [htask']; rfl
  refine ⟨s', hserve, ?_, hmimeq.trans hunsent.symm, fun hne => absurd rfl hne,
    fun _ => ⟨⟨ready_of_serveLine h.ready List.not_mem_nil hserve, ?_, ?_, ?_, ?_⟩, ?_, ?_⟩⟩
  · rw [htask']
    rfl
  · rw [htask']
    exact h.queue.sent
  · rw [htask']
    exact h.owner
  · rw [hheap']
    exact h.mountpoint
  · rw [hheap']
    exact h.connectionKeepalive
  · rw [hmimeq, htask']
    rfl
  · rw [hmimeq, hheap']
    rfl

/-- A header of the reply. -/
theorem Acked.exists_afterHeader {done todo : Evkeyvalq} {header : CString × CString}
    (h : Acked i done s) (happend : done ++ header :: todo = syncReplyHeaders date)
    (hfits : ReplyFits env date) :
    ∃ s', serveLine env i s (headerText header) = some s' ∧
      AfterLine i date s s' (todo.map headerText ++ [[]]) := by
  have hmem : header ∈ syncReplyHeaders date := by
    rw [← happend]
    exact List.mem_append_right _ List.mem_cons_self
  have htaken := taken_syncReplyHeaders hfits header hmem
  have hserve := serveLine_header h.ready.plain h.state htaken
  have hready := ready_of_serveLine h.ready (not_mem_headerText htaken) hserve
  have hheap : (s.modifySt i (readHeader · header)).heap i = readHeader (s.heap i) header :=
    heap_modifySt_self s i _
  have hsame : SameButHead (s.heap i) (readHeader (s.heap i) header) :=
    sameButHead_foldl [header] _
  obtain ⟨-, hstate, hmountpoint, hconnection, -⟩ := hsame.kept
  obtain ⟨st, hcontent, hkeep, hst⟩ := h.head
  refine ⟨_, hserve, rfl, ?_, fun _ => ⟨h.pending, @Reads.headers _ _ _ _
    (done ++ [header]) _
    ⟨⟨hready, h.queue, h.owner, ?_, ?_⟩, h.pending, ?_, st, hcontent, hkeep, ?_⟩
    (by rw [List.append_assoc]; exact happend)⟩, fun hnil => absurd hnil (by simp)⟩
  · rw [ClientTask.unsent, h.pending]
    rfl
  · rw [hheap, hmountpoint, h.mountpoint]
  · rw [hheap, hconnection, h.connectionKeepalive]
  · rw [hheap, hstate, h.state]
  · rw [hheap, hst, List.foldl_append]
    rfl

/-- **A line of the reply** is read. -/
theorem Reads.exists_serveLine {line : CString} {lines : List CString}
    (h : Reads i date s (line :: lines)) (hfits : ReplyFits env date) :
    ∃ s', serveLine env i s line = some s' ∧ AfterLine i date s s' lines := by
  generalize hlines : line :: lines = left at h
  cases h with
  | status h hne =>
    obtain ⟨rfl, rfl⟩ := List.cons.inj hlines
    exact h.exists_afterStatus hne hfits
  | @headers done todo h happend =>
    cases todo with
    | nil =>
      obtain ⟨rfl, rfl⟩ := List.cons.inj hlines
      obtain rfl : done = syncReplyHeaders date := by rw [← happend, List.append_nil]
      exact h.exists_afterEnd hfits
    | cons header todo =>
      obtain ⟨rfl, rfl⟩ := List.cons.inj hlines
      exact h.exists_afterHeader happend hfits

/-! ### Parts of the reply -/

/-- These bytes of a reply have not been read: what is left of a line, and the lines after it. -/
inductive Receives (i : ℕ) (date : CString) : Client F → List Byte → Prop
  | intro {s : Client F} {p q : List Byte} {line : CString} {lines : List CString}
      (h : Reads i date s (line :: lines)) (hq : q ≠ []) (hline : p ++ q = line ++ crlf) :
      Receives i date (s.atLine i p) (q ++ (writeLines lines).flatten)

theorem task_atLine (s : Client F) (p : List Byte) : (s.atLine i p).task = s.task := by
  rw [atLine]
  split
  · rfl
  · split <;> rfl

/-- A reply begins when a message waits for it. -/
theorem Sent.receives (h : Sent i s) (hne : s.task.mimeq ≠ []) (date : CString) :
    Receives i date s (writeLines (syncReplyLines date)).flatten := by
  have hline : ([] : List Byte) ++ (syncReplyLine ++ crlf) = syncReplyLine ++ crlf := rfl
  exact .intro (p := []) (.status h hne) (by simp [crlf]) hline

/-- What has been read, once a part of a reply is. -/
structure AfterPart (i : ℕ) (date : CString) (s s' : Client F) (rest : List Byte) : Prop where
  queueMaxSize : s'.task.queueMaxSize = s.task.queueMaxSize
  unfinished : rest ≠ [] → Receives i date s' rest ∧ s'.task.unsent = s.task.unsent ∧
    (s'.task.inFlight = s.task.inFlight ∨ s'.task.inFlight = [])
  finished : rest = [] → Sent i s' ∧ s'.task.mimeq = s.task.unsent

/-- A part of a line. -/
theorem Reads.feed_part {lines : List CString} {line : CString} {p y q : List Byte}
    (h : Reads i date s (line :: lines)) (hfits : ReplyFits env date) (hq : q ≠ [])
    (hline : p ++ (y ++ q) = line ++ crlf) :
    Client.feed threads env i (s.atLine i p) y = some (s.atLine i (p ++ y)) ∧
      AfterPart i date (s.atLine i p) (s.atLine i (p ++ y)) (q ++ (writeLines lines).flatten) := by
  obtain ⟨s', hserve, -⟩ := h.exists_serveLine hfits
  obtain ⟨hread, -⟩ := @reads_line _ _ _ _ _ threads h.syncs.ready _ (h.not_mem hfits) hserve
  refine ⟨hread.part 0 Nat.one_pos p y q hq hline, ?_, fun _ => ⟨.intro h hq ?_, ?_, .inl ?_⟩,
    fun hnil => absurd (List.append_eq_nil_iff.mp hnil).1 hq⟩
  · rw [task_atLine, task_atLine]
  · rw [List.append_assoc, hline]
  · rw [task_atLine, task_atLine]
  · rw [task_atLine, task_atLine]

/-- **A part of the reply**, from inside a line on. -/
theorem Reads.feed {lines : List CString} {line : CString} {p q y z : List Byte}
    (h : Reads i date s (line :: lines)) (hfits : ReplyFits env date) (hq : q ≠ [])
    (hline : p ++ q = line ++ crlf) (hrest : y ++ z = q ++ (writeLines lines).flatten) :
    ∃ s', Client.feed threads env i (s.atLine i p) y = some s' ∧
      AfterPart i date (s.atLine i p) s' z := by
  induction lines generalizing s line p q y with
  | nil =>
    rcases unit_cases hrest with ⟨y', rfl, hnext⟩ | ⟨q', hq', rfl, rfl⟩
    · -- the reply is over
      obtain ⟨s', hserve, hafter⟩ := h.exists_serveLine hfits
      obtain ⟨hread, hready⟩ :=
        @reads_line _ _ _ _ _ threads h.syncs.ready _ (h.not_mem hfits) hserve
      obtain ⟨rfl, rfl⟩ := List.append_eq_nil_iff.mp hnext
      have hfeed : Client.feed threads env i (s.atLine i p) (q ++ []) =
          Client.feed threads env i s' [] :=
        hread.unit 0 Nat.one_pos p q [] hq hline
      refine ⟨s', hfeed.trans (feed_nil hready), ?_, fun hne => absurd rfl hne, fun _ =>
        ⟨hafter.sent rfl, ?_⟩⟩
      · rw [task_atLine, hafter.queueMaxSize]
      · rw [task_atLine, hafter.mimeq]
    · exact ⟨_, h.feed_part hfits hq' hline⟩
  | cons line' lines ih =>
    rcases unit_cases hrest with ⟨y', rfl, hnext⟩ | ⟨q', hq', rfl, rfl⟩
    · -- the next line
      obtain ⟨s₁, hserve, hafter⟩ := h.exists_serveLine hfits
      obtain ⟨hread, -⟩ := @reads_line _ _ _ _ _ threads h.syncs.ready _ (h.not_mem hfits) hserve
      obtain ⟨hpending, hreads⟩ := hafter.rest (List.cons_ne_nil _ _)
      have hfeed : Client.feed threads env i (s.atLine i p) (q ++ y') =
          Client.feed threads env i s₁ y' :=
        hread.unit 0 Nat.one_pos p q y' hq hline
      obtain ⟨s', hs', hpart⟩ := ih hreads (p := []) (q := line' ++ crlf) (by simp [crlf]) rfl hnext
      have hunsent : s₁.task.unsent = s.task.unsent := by
        rw [← hafter.mimeq, ClientTask.unsent, hpending]
        rfl
      have hinFlight : s₁.task.inFlight = [] := by
        rw [ClientTask.inFlight, hpending]
        rfl
      have hself : s₁.atLine i [] = s₁ := if_pos rfl
      rw [hself] at hs' hpart
      refine ⟨s', hfeed.trans hs', ?_, fun hne => ?_, fun hnil => ?_⟩
      · rw [task_atLine, hpart.queueMaxSize, hafter.queueMaxSize]
      · obtain ⟨hrec, hun, hin⟩ := hpart.unfinished hne
        rw [hinFlight] at hin
        rw [task_atLine, ← hunsent]
        exact ⟨hrec, hun, .inr (hin.elim id id)⟩
      · obtain ⟨hsent, hmimeq⟩ := hpart.finished hnil
        rw [task_atLine, ← hunsent]
        exact ⟨hsent, hmimeq⟩
    · exact ⟨_, h.feed_part hfits hq' hline⟩

/-- **A part of the reply.** -/
theorem Receives.feed {y z : List Byte} (h : Receives i date s (y ++ z))
    (hfits : ReplyFits env date) :
    ∃ s', Client.feed threads env i s y = some s' ∧ AfterPart i date s s' z := by
  generalize hrest : y ++ z = rest at h
  cases h with
  | intro h hq hline => exact h.feed hfits hq hline hrest

theorem Receives.pending_le {rest : List Byte} (h : Receives i date s rest) :
    s.task.pending ≤ 1 := by
  cases h with
  | @intro s p q line lines h _ _ =>
    rw [task_atLine]
    generalize line :: lines = left at h
    cases h with
    | status h hne => rw [h.pending, if_neg hne]
    | headers h _ => exact h.pending.trans_le (Nat.zero_le _)

/-! ### Messages that are queued -/

theorem ready_setTask (h : Ready i s) {task : ClientTask F} (hst : task.st = s.task.st)
    (hrun : task.state = s.task.state) (hev : task.ev = s.task.ev)
    (howner : task.owner = s.task.owner) : Ready i (s.setTask task) where
  live := {
    lt := h.live.lt
    state := h.live.state
    duties := h.live.duties
    st := hst.trans h.live.st
    running := hrun.trans h.live.running
    ev := hev.trans h.live.ev
    others := h.live.others
    own := fun mountpoint persistent hown =>
      h.live.own mountpoint persistent (howner.symm.trans hown)
    sourcetable := fun new args hown => h.live.sourcetable new args (howner.symm.trans hown) }
  plain := h.plain

/-- A message goes to the queue. -/
theorem Syncs.queued (h : Syncs i s) (packet : Packet) :
    Syncs i (s.setTask (s.task.queued packet)) where
  ready := ready_setTask h.ready rfl rfl rfl rfl
  queue := h.queue.queued packet
  owner := h.owner
  mountpoint := h.mountpoint
  connectionKeepalive := h.connectionKeepalive

theorem taskQueue_busy (hqueue : s.task.QueueOk) (hrun : s.task.state = .taskRunning)
    (hst : s.task.st = some i) (hbusy : (s.heap i).state ≠ .idleClient) (packet : Packet) :
    s.taskQueue packet = some (s.setTask (s.task.queued packet)) := by
  have hst' : (s.setTask (s.task.queued packet)).task.st = some i := hst
  rw [taskQueue_eq hqueue hrun, sendIfIdle, hst']
  exact if_neg hbusy

theorem queued_ne_nil (task : ClientTask F) (packet : Packet) : (task.queued packet).mimeq ≠ [] :=
  List.append_ne_nil_of_right_ne_nil _ (List.cons_ne_nil _ _)

/-- The request before still waits for its reply. -/
theorem Sent.queued (h : Sent i s) (hne : s.task.mimeq ≠ []) (packet : Packet) :
    Sent i (s.setTask (s.task.queued packet)) where
  toSyncs := h.toSyncs.queued packet
  pending := (h.pending.trans (if_neg hne)).trans (if_neg (queued_ne_nil _ _)).symm
  state := (h.state.trans (if_neg hne)).trans (if_neg (queued_ne_nil _ _)).symm

/-- **A message is queued** when the one before it waits for its reply, or when there is none. -/
theorem Sent.exists_taskQueue (h : Sent i s) (packet : Packet) :
    ∃ s', s.taskQueue packet = some s' ∧ Sent i s' ∧
      s'.task.mimeq = (s.task.queued packet).mimeq ∧
      s'.task.queueMaxSize = s.task.queueMaxSize := by
  by_cases hnil : s.task.mimeq = []
  · -- the session is idle
    have hidle : (s.heap i).state = .idleClient := h.state.trans (if_pos hnil)
    have hpending : s.task.pending = 0 := h.pending.trans (if_pos hnil)
    have hst : (s.setTask (s.task.queued packet)).task.st = some i := h.ready.live.st
    obtain ⟨s', hsend, htask, hheap⟩ := @exists_sendNextRequest _
      (s.setTask (s.task.queued packet)) i hidle (h.queue.queued packet) hpending
    have hqueue : s.taskQueue packet = some s' := by
      rw [taskQueue_eq h.queue h.ready.live.running, sendIfIdle, hst]
      exact (if_pos hidle).trans hsend
    have hkept : Kept i s s' := taskQueue_kept
      (fun j hj => (Option.some.inj (h.ready.live.st.symm.trans hj)).symm) hqueue
    have hmimeq : s'.task.mimeq = (s.task.queued packet).mimeq := by
      rw [htask]
      rfl
    refine ⟨s', hqueue, ⟨⟨⟨h.ready.live.kept hkept, ?_⟩, ?_, ?_, ?_, ?_⟩, ?_, ?_⟩, hmimeq, ?_⟩
    · rw [hheap]
      exact h.ready.plain
    · rw [htask]
      exact (h.queue.queued packet).sent
    · rw [htask]
      exact h.owner
    · rw [hheap]
      exact h.mountpoint
    · rw [hheap]
      exact h.connectionKeepalive
    · rw [hmimeq, htask]
      rfl
    · rw [hmimeq, hheap]
      rfl
    · rw [htask]
      rfl
  · have hstate := h.state.trans (if_neg hnil)
    exact ⟨_, taskQueue_busy h.queue h.ready.live.running h.ready.live.st
      (by rw [hstate]; decide) packet, h.queued hnil packet, rfl, rfl⟩

theorem Reads.queued {lines : List CString} (h : Reads i date s lines) (packet : Packet) :
    Reads i date (s.setTask (s.task.queued packet)) lines := by
  cases h with
  | status h hne => exact .status (h.queued hne packet) (queued_ne_nil _ _)
  | headers h happend =>
    exact .headers ⟨h.toSyncs.queued packet, h.pending, h.state, h.head⟩ happend

theorem Reads.busy {lines : List CString} (h : Reads i date s lines) :
    (s.heap i).state ≠ .idleClient := by
  cases h with
  | status h hne =>
    rw [h.state, if_neg hne]
    decide
  | headers h _ =>
    rw [h.state]
    decide

theorem state_atLine (s : Client F) (p : List Byte) :
    ((s.atLine i p).heap i).state = (s.heap i).state := by
  rw [atLine]
  split
  · rfl
  · split
    · rw [received, heap_modifySt_self, heap_modifySt_self]
      rfl
    · rw [received, heap_modifySt_self]
      rfl

theorem atLine_setTask (s : Client F) (p : List Byte) (task : ClientTask F) :
    (s.atLine i p).setTask task = (s.setTask task).atLine i p := by
  rw [atLine, atLine]
  by_cases hp : p = []
  · rw [if_pos hp, if_pos hp]
  · rw [if_neg hp, if_neg hp]
    by_cases hstate : (s.heap i).state = .waitHttpStatus
    · rw [if_pos hstate]
      exact (if_pos hstate).symm
    · rw [if_neg hstate]
      exact (if_neg hstate).symm

/-- **A message is queued** while a reply is read. -/
theorem Receives.taskQueue {rest : List Byte} (h : Receives i date s rest) (packet : Packet) :
    s.taskQueue packet = some (s.setTask (s.task.queued packet)) ∧
      Receives i date (s.setTask (s.task.queued packet)) rest ∧ s.task.QueueOk := by
  cases h with
  | @intro s p q line lines h hq hline =>
    have htask : (s.atLine i p).task = s.task := task_atLine s p
    have hqueue : (s.atLine i p).task.QueueOk := htask.symm ▸ h.syncs.queue
    refine ⟨taskQueue_busy (i := i) hqueue ?_ ?_ ?_ packet, ?_, hqueue⟩
    · rw [htask, h.syncs.ready.live.running]
    · rw [htask, h.syncs.ready.live.st]
    · rw [state_atLine]
      exact h.busy
    · rw [htask, atLine_setTask]
      exact .intro (h.queued packet) hq hline

end Client

end Ntripcli

end ChilopodCaster
