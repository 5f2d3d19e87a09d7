import ChilopodCaster.Lib.Fold
import ChilopodCaster.Lib.Transition
import ChilopodCaster.Task
import Mathlib.Data.List.Count
import Mathlib.Data.List.Induction

/-!
# The tasks of a syncer

A syncer (`syncer.c`) sends the livesource table to the other nodes, with one task for each. The
callbacks of a task are given the syncer and a number, `cb_arg2`, which they use as an index in the
array of tasks: the number of a task is chosen when the task is created. A reload builds a new
array. A task that has the host, the port and the TLS flag of a node is kept, with its number.

A task is known by its address. Reference counts are natural numbers, and a task is freed when its
count is 0; it is stopped then, and calls nothing back. Allocations are taken to succeed. What a
callback does to the queue of a task is a list of the operations of `Task`.

## Main definitions

* `Syncer`, `Syncer.reload`, `Syncer.endCb`, `Syncer.statusCb`, `Syncer.startConfig` — the functions
  of the source; a callback is `none` when it reads outside the array, follows a null pointer or
  fails an assertion
* `Syncer.IndicesRight` — each task of the array has its own index for number
* `Syncer.InPlace` — a reload that keeps no task at another index

## Main results

* `Syncer.reachable_callbacks` — in runs whose reloads keep tasks in place, callbacks act on the
  task that calls them; and no other reload keeps the indices right
-/

namespace ChilopodCaster

/-- `struct config_node`, as far as a syncer goes. -/
structure ConfigNode where
  host : CString
  port : BitVec 16
  tls : Bool
  retryDelay : ℕ
  deriving DecidableEq, Repr

/-- The fields of `struct ntrip_task` that a syncer reads and writes. -/
structure SyncerTask where
  host : CString
  port : BitVec 16
  tls : Bool
  refreshDelay : ℕ
  /-- the number given to the callbacks -/
  cbArg2 : ℕ
  state : TaskState
  /-- `st`, known by its `status_code`; `none` for `NULL` -/
  st : Option ℕ
  /-- whether `ev` is set: the task will restart -/
  ev : Bool
  /-- what was done with the queue -/
  ops : List TaskOp
  deriving DecidableEq, Repr

namespace SyncerTask

/-- `ntrip_task_clear_st`. -/
def clearSt (this : SyncerTask) : SyncerTask :=
  { this with st := none, ops := this.ops ++ [.sessionEnd] }

/-- `ntrip_task_queue`. -/
def queue (this : SyncerTask) (packet : Packet) : SyncerTask :=
  if this.state = .taskEnd then this else { this with ops := this.ops ++ [.queue packet] }

/-- `ntrip_task_ack_pending`. -/
def ackPending (this : SyncerTask) : SyncerTask :=
  if this.state = .taskEnd then this else { this with ops := this.ops ++ [.ackPending] }

/-- `ntrip_task_reschedule`. -/
def reschedule (this : SyncerTask) : SyncerTask :=
  if this.state = .taskEnd then this
  else
    { this with
      ev := if this.refreshDelay ≠ 0 then true else this.ev
      ops := this.ops ++ [.reschedule] }

/-- `ntrip_task_start`, which asserts that the task has no session. -/
def start (this : SyncerTask) : Option SyncerTask :=
  if this.st = none then some { this with state := .taskRunning, st := some 0 } else none

/-- What `end_cb` does to a task: the session is cleared, a serial check is queued for the next
connection, and the task is rescheduled. -/
def ended (this : SyncerTask) (checkserial : Packet) : SyncerTask :=
  (this.clearSt.queue checkserial).reschedule

/-- What `status_cb` does to a task: the items sent are acknowledged, and a full table is queued if
the call failed. It follows `st` to read the status code. -/
def replied (this : SyncerTask) (full : Packet) : Option SyncerTask :=
  this.st.map fun statusCode =>
    if statusCode ≠ 200 then this.ackPending.queue full else this.ackPending

/-- What `syncer_start_config` does to a task. -/
def restarted (this : SyncerTask) (full : Packet) : Option SyncerTask := (this.queue full).start

end SyncerTask

/-- `compare_node_task`: whether a task is for another node. -/
def compareNodeTask (node : ConfigNode) (task : SyncerTask) : Bool :=
  strcasecmp node.host task.host || node.port ≠ task.port || node.tls ≠ task.tls

/-- `struct syncer`: `task` is the array of its tasks, by address. The tasks in memory and their
reference counts are beside it. -/
structure Syncer where
  heap : ℕ → SyncerTask
  refcnt : ℕ → ℕ
  /-- the next address -/
  next : ℕ
  task : List ℕ

namespace Syncer

/-! ### Operations -/

/-- A syncer without tasks. -/
def empty : Syncer where
  heap _ := ⟨[], 0, false, 0, 0, .taskInit, none, false, []⟩
  refcnt _ := 0
  next := 0
  task := []

/-- `syncer_task_new`, with one reference, at the next address. -/
def taskNew (this : Syncer) (i : ℕ) (node : ConfigNode) : Syncer :=
  { this with
    heap := Function.update this.heap this.next
      ⟨node.host, node.port, node.tls, node.retryDelay, i, .taskInit, none, false, []⟩
    refcnt := Function.update this.refcnt this.next 1
    next := this.next + 1 }

/-- `ntrip_task_incref`. -/
def taskIncref (this : Syncer) (p : ℕ) : Syncer :=
  { this with refcnt := Function.update this.refcnt p (this.refcnt p + 1) }

/-- `ntrip_task_decref`. -/
def taskDecref (this : Syncer) (p : ℕ) : Syncer :=
  { this with refcnt := Function.update this.refcnt p (this.refcnt p - 1) }

/-- The loop of `syncer_reload` over the tasks: the first one that is for a node. -/
def findTask (this : Syncer) (node : ConfigNode) : Option ℕ :=
  this.task.find? fun p => !compareNodeTask node (this.heap p)

/-- One round of the loop of `syncer_reload` over the nodes, on the syncer and the new array. -/
def reloadRound (s : Syncer × List ℕ) (node : ConfigNode × ℕ) : Syncer × List ℕ :=
  match s.1.findTask node.1 with
  | some nt => (s.1.taskIncref nt, s.2 ++ [nt])
  | none => (s.1.taskNew node.2 node.1, s.2 ++ [s.1.next])

/-- The loop of `syncer_reload` over the nodes. -/
def reloadLoop (this : Syncer) (nodes : List ConfigNode) : Syncer × List ℕ :=
  nodes.zipIdx.foldl reloadRound (this, [])

/-- `syncer_reload`. -/
def reload (this : Syncer) (nodes : List ConfigNode) : Syncer :=
  let s := this.reloadLoop nodes
  { s.1.task.foldl taskDecref s.1 with task := s.2 }

/-- `syncer_new`. -/
def new (nodes : List ConfigNode) : Option Syncer :=
  if nodes.length = 0 then none else some (empty.reload nodes)

/-- The task `a->task[n]` is changed. -/
def onTask (this : Syncer) (n : ℕ) (f : SyncerTask → Option SyncerTask) : Option Syncer :=
  this.task[n]?.bind fun p => (f (this.heap p)).map fun task =>
    { this with heap := Function.update this.heap p task }

/-- `end_cb`. -/
def endCb (this : Syncer) (n : ℕ) (checkserial : Packet) : Option Syncer :=
  this.onTask n fun task => some (task.ended checkserial)

/-- `status_cb`. -/
def statusCb (this : Syncer) (n : ℕ) (full : Packet) : Option Syncer :=
  this.onTask n fun task => task.replied full

/-- `syncer_start_config`, and `syncer_start`. -/
def startConfig (this : Syncer) (n : ℕ) (full : Packet) : Option Syncer :=
  this.onTask n fun task => task.restarted full

/-- One round of the loop of `syncer_start_all`. -/
def startRound (full : Packet) (this : Syncer) (i : ℕ) : Option Syncer :=
  this.task[i]?.bind fun p =>
    if (this.heap p).state = .taskInit then this.startConfig i full else some this

/-- `syncer_start_all`. -/
def startAll (this : Syncer) (full : Packet) : Option Syncer :=
  (List.range this.task.length).foldlM (startRound full) this

/-! ### Runs -/

/-- What happens to a syncer: reloads, and the events of its tasks, each known by its address. -/
inductive Step
  | reload (nodes : List ConfigNode)
  | startAll (full : Packet)
  /-- the status line of a reply -/
  | status (p statusCode : ℕ) (full : Packet)
  /-- the end of the session -/
  | sessionEnd (p : ℕ) (checkserial : Packet)
  /-- the timer: `_ntrip_task_restart_cb` -/
  | restart (p : ℕ) (full : Packet)

/-- The task is not freed. -/
def Live (this : Syncer) (p : ℕ) : Prop := this.refcnt p ≠ 0

instance (this : Syncer) (p : ℕ) : Decidable (this.Live p) := inferInstanceAs (Decidable (_ ≠ _))

/-- One step. The events are those of a task that is not freed, and has a session or a timer. -/
def step (this : Syncer) : Step → Option Syncer
  | .reload nodes => some (this.reload nodes)
  | .startAll full => this.startAll full
  | .status p statusCode full =>
    if this.Live p ∧ (this.heap p).st.isSome then
      { this with
        heap := Function.update this.heap p { this.heap p with st := some statusCode } }.statusCb
          (this.heap p).cbArg2 full
    else none
  | .sessionEnd p checkserial =>
    if this.Live p ∧ (this.heap p).st.isSome then this.endCb (this.heap p).cbArg2 checkserial
    else none
  | .restart p full =>
    if this.Live p ∧ (this.heap p).ev then
      { this with
        heap := Function.update this.heap p { this.heap p with ev := false } }.startConfig
          (this.heap p).cbArg2 full
    else none

/-- Each task of the array has its own index for number. -/
def IndicesRight (this : Syncer) : Prop :=
  ∀ i p, this.task[i]? = some p → (this.heap p).cbArg2 = i

/-- Where a node of the new list is for a task that exists, this task is at the same index. -/
def InPlace (this : Syncer) (nodes : List ConfigNode) : Prop :=
  ∀ node ∈ nodes.zipIdx, ∀ p ∈ this.findTask node.1, this.task[node.2]? = some p

instance (this : Syncer) (nodes : List ConfigNode) : Decidable (this.InPlace nodes) :=
  inferInstanceAs (Decidable (∀ node ∈ nodes.zipIdx, _))

/-- Steps that keep the tasks in place. -/
def KeepsInPlace (this : Syncer) : Step → Prop
  | .reload nodes => this.InPlace nodes
  | _ => True

instance (this : Syncer) : (l : Step) → Decidable (this.KeepsInPlace l)
  | .reload nodes => inferInstanceAs (Decidable (this.InPlace nodes))
  | .startAll _ => .isTrue trivial
  | .status .. => .isTrue trivial
  | .sessionEnd .. => .isTrue trivial
  | .restart .. => .isTrue trivial

/-! ### What a reload does -/

/-- The invariant: the array holds addresses that were allocated, and the references counted are
those of the array. -/
structure Sound (this : Syncer) : Prop where
  lt : ∀ p ∈ this.task, p < this.next
  refcnt : ∀ p, this.refcnt p = this.task.count p

variable {this that : Syncer} {nodes : List ConfigNode} {tasks : List ℕ}

theorem Sound.live_iff (h : this.Sound) {p : ℕ} : this.Live p ↔ p ∈ this.task := by
  rw [Live, h.refcnt, ← List.count_pos_iff]
  omega

/-- What the loop of `syncer_reload` has done after some nodes: a node has the task that was for it,
or a new one whose number is the index of the node. -/
structure Placed (this that : Syncer) (nodes : List ConfigNode) (tasks : List ℕ) : Prop where
  task : that.task = this.task
  next_le : this.next ≤ that.next
  heap : ∀ p < this.next, that.heap p = this.heap p
  lt : ∀ p ∈ tasks, p < that.next
  refcnt : ∀ p, that.refcnt p = this.refcnt p + tasks.count p
  length : tasks.length = nodes.length
  entry : ∀ i node p, nodes[i]? = some node → tasks[i]? = some p →
    this.findTask node = some p ∨ this.findTask node = none ∧ (that.heap p).cbArg2 = i

theorem Sound.findTask_lt (h : this.Sound) {node : ConfigNode} {p : ℕ}
    (hp : this.findTask node = some p) : p < this.next :=
  h.lt p (List.mem_of_find?_eq_some hp)

/-- The tasks that were there are compared as before. -/
theorem Placed.findTask (h : Placed this that nodes tasks) (hs : this.Sound) (node : ConfigNode) :
    that.findTask node = this.findTask node := by
  rw [Syncer.findTask, Syncer.findTask, h.task, ← List.head?_filter, ← List.head?_filter]
  refine congrArg List.head? (List.filter_congr fun p hp => ?_)
  rw [h.heap p (hs.lt p hp)]

theorem getElem?_append_singleton {α : Type} {l : List α} {x y : α} {i : ℕ}
    (h : (l ++ [x])[i]? = some y) : l[i]? = some y ∨ i = l.length ∧ y = x := by
  rcases lt_trichotomy i l.length with hi | rfl | hi
  · exact .inl (by rwa [List.getElem?_append_left hi] at h)
  · refine .inr ⟨rfl, ?_⟩
    rw [List.getElem?_append_right (le_refl _), Nat.sub_self] at h
    exact (Option.some.inj h).symm
  · rw [List.getElem?_eq_none (by rw [List.length_append, List.length_singleton]; omega)] at h
    contradiction

/-- One more node. -/
theorem Placed.round (h : Placed this that nodes tasks) (hs : this.Sound) (node : ConfigNode) :
    Placed this (reloadRound (that, tasks) (node, nodes.length)).1 (nodes ++ [node])
      (reloadRound (that, tasks) (node, nodes.length)).2 := by
  have hold : ∀ i node' p, i = nodes.length ∧ node' = node → tasks[i]? ≠ some p := by
    rintro i _ p ⟨rfl, rfl⟩ hp
    rw [← h.length, List.getElem?_eq_none (le_refl _)] at hp
    contradiction
  rw [reloadRound, h.findTask hs]
  cases hfind : this.findTask node with
  | some nt =>
    have hnt := hs.findTask_lt hfind
    refine ⟨h.task, h.next_le, h.heap, ?_, ?_, ?_, ?_⟩
    · intro p hp
      rcases List.mem_append.mp hp with hp | hp
      · exact h.lt p hp
      · obtain rfl := List.mem_singleton.mp hp
        exact hnt.trans_le h.next_le
    · intro p
      dsimp only [taskIncref]
      rw [List.count_append, List.count_singleton]
      by_cases hp : p = nt
      · rw [hp, Function.update_self, h.refcnt]
        simp [Nat.add_assoc]
      · rw [Function.update_of_ne hp, h.refcnt]
        simp [Ne.symm hp]
    · rw [List.length_append, List.length_append, h.length]
      rfl
    · intro i node' p hnode hp
      rcases getElem?_append_singleton hnode with hnode | hlast
      · rcases getElem?_append_singleton hp with hp | ⟨hi, -⟩
        · exact h.entry i node' p hnode hp
        · rw [hi, h.length, List.getElem?_eq_none (le_refl _)] at hnode
          contradiction
      · obtain ⟨-, rfl⟩ := (getElem?_append_singleton hp).resolve_left (hold i node' p hlast)
        rw [hlast.2]
        exact .inl hfind
  | none =>
    refine ⟨h.task, h.next_le.trans (Nat.le_succ _), ?_, ?_, ?_, ?_, ?_⟩
    · intro p hp
      dsimp only [taskNew]
      rw [Function.update_of_ne (by have := h.next_le; omega), h.heap p hp]
    · intro p hp
      rcases List.mem_append.mp hp with hp | hp
      · exact Nat.lt_succ_of_lt (h.lt p hp)
      · rw [List.mem_singleton.mp hp]
        exact Nat.lt_succ_self _
    · intro p
      dsimp only [taskNew]
      rw [List.count_append, List.count_singleton]
      by_cases hp : p = that.next
      · have hnew : that.next ∉ this.task := fun hmem => by
          have := hs.lt _ hmem
          have := h.next_le
          omega
        have hnew' : that.next ∉ tasks := fun hmem => absurd (h.lt _ hmem) (lt_irrefl _)
        rw [hp, Function.update_self, hs.refcnt, List.count_eq_zero_of_not_mem hnew,
          List.count_eq_zero_of_not_mem hnew']
        simp
      · rw [Function.update_of_ne hp, h.refcnt]
        simp [Ne.symm hp]
    · rw [List.length_append, List.length_append, h.length]
      rfl
    · intro i node' p hnode hp
      rcases getElem?_append_singleton hnode with hnode | hlast
      · rcases getElem?_append_singleton hp with hp | ⟨hi, -⟩
        · have hlt := h.lt p (List.mem_of_getElem? hp)
          dsimp only [taskNew]
          rw [Function.update_of_ne hlt.ne]
          exact h.entry i node' p hnode hp
        · rw [hi, h.length, List.getElem?_eq_none (le_refl _)] at hnode
          contradiction
      · obtain ⟨-, rfl⟩ := (getElem?_append_singleton hp).resolve_left (hold i node' p hlast)
        dsimp only [taskNew]
        rw [Function.update_self, hlast.2]
        exact .inr ⟨hfind, hlast.1.symm⟩

/-- The whole loop. -/
theorem Sound.reloadLoop (hs : this.Sound) (nodes : List ConfigNode) :
    Placed this (this.reloadLoop nodes).1 nodes (this.reloadLoop nodes).2 := by
  induction nodes using List.reverseRecOn with
  | nil => exact ⟨rfl, le_refl _, fun _ _ => rfl, by simp [Syncer.reloadLoop],
      by simp [Syncer.reloadLoop], rfl, by simp⟩
  | append_singleton nodes node ih =>
    have hround := ih.round hs node
    rw [Syncer.reloadLoop, List.zipIdx_append, List.foldl_append]
    simpa [Syncer.reloadLoop] using hround

theorem foldl_taskDecref (l : List ℕ) (this : Syncer) :
    (l.foldl taskDecref this).heap = this.heap ∧ (l.foldl taskDecref this).next = this.next ∧
      ∀ p, (l.foldl taskDecref this).refcnt p = this.refcnt p - l.count p := by
  induction l generalizing this with
  | nil => exact ⟨rfl, rfl, fun _ => rfl⟩
  | cons q l ih =>
    obtain ⟨hheap, hnext, hrefcnt⟩ := ih (this.taskDecref q)
    refine ⟨hheap, hnext, fun p => ?_⟩
    rw [List.foldl_cons, hrefcnt, List.count_cons]
    dsimp only [taskDecref]
    by_cases hp : p = q
    · rw [hp, Function.update_self, if_pos (beq_self_eq_true q)]
      omega
    · rw [Function.update_of_ne hp]
      simp [Ne.symm hp]

/-- The entries of the new array. -/
theorem Sound.reload (hs : this.Sound) (nodes : List ConfigNode) :
    (this.reload nodes).Sound ∧ (this.reload nodes).task.length = nodes.length ∧
      ∀ i node p, nodes[i]? = some node → (this.reload nodes).task[i]? = some p →
        this.findTask node = some p ∧ ((this.reload nodes).heap p).cbArg2 = (this.heap p).cbArg2 ∨
        this.findTask node = none ∧ ((this.reload nodes).heap p).cbArg2 = i := by
  have hloop := hs.reloadLoop nodes
  obtain ⟨hheap, hnext, hrefcnt⟩ :=
    foldl_taskDecref (this.reloadLoop nodes).1.task (this.reloadLoop nodes).1
  refine ⟨⟨?_, ?_⟩, hloop.length, ?_⟩
  · intro p hp
    exact hnext.symm ▸ hloop.lt p hp
  · intro p
    refine (hrefcnt p).trans ?_
    rw [hloop.task, hloop.refcnt, hs.refcnt, Nat.add_sub_cancel_left]
    rfl
  · intro i node p hnode hp
    have hcell : ((this.reload nodes).heap p) = (this.reloadLoop nodes).1.heap p :=
      congrFun hheap p
    rw [hcell]
    rcases hloop.entry i node p hnode hp with hfind | hnew
    · exact .inl ⟨hfind, by rw [hloop.heap p (hs.findTask_lt hfind)]⟩
    · exact .inr hnew

/-- **What a reload keeps.** From right indices, a reload gives right indices exactly when it leaves
the tasks it keeps in place. -/
theorem Sound.indicesRight_reload_iff (hs : this.Sound) (hright : this.IndicesRight)
    (nodes : List ConfigNode) : (this.reload nodes).IndicesRight ↔ this.InPlace nodes := by
  obtain ⟨-, hlength, hentry⟩ := hs.reload nodes
  constructor
  · rintro h ⟨node, i⟩ hnode p hfind
    rw [List.mem_zipIdx_iff_getElem?] at hnode
    obtain ⟨hi, -⟩ := List.getElem?_eq_some_iff.mp hnode
    obtain ⟨q, hq⟩ : ∃ q, (this.reload nodes).task[i]? = some q :=
      ⟨_, List.getElem?_eq_getElem (hlength ▸ hi)⟩
    obtain ⟨hfind', harg⟩ | ⟨hfind', -⟩ := hentry i node q hnode hq
    · obtain rfl := Option.some.inj (hfind'.symm.trans hfind)
      obtain ⟨j, hj⟩ := List.getElem?_of_mem (List.mem_of_find?_eq_some hfind')
      have harg' := (hright j q hj).symm.trans (harg.symm.trans (h i q hq))
      rwa [← harg']
    · rw [hfind] at hfind'
      contradiction
  · intro h i p hp
    obtain ⟨hi, -⟩ := List.getElem?_eq_some_iff.mp hp
    obtain ⟨node, hnode⟩ : ∃ node, nodes[i]? = some node :=
      ⟨_, List.getElem?_eq_getElem (hlength ▸ hi)⟩
    obtain ⟨hfind, harg⟩ | ⟨-, harg⟩ := hentry i node p hnode hp
    · rw [harg]
      exact hright i p (h (node, i) (List.mem_zipIdx_iff_getElem?.mpr hnode) p hfind)
    · exact harg

theorem sound_empty : empty.Sound := ⟨by simp [empty], by simp [empty]⟩

/-- The tasks of a new syncer are all new. -/
theorem indicesRight_empty_reload (nodes : List ConfigNode) :
    (empty.reload nodes).IndicesRight := by
  refine (sound_empty.indicesRight_reload_iff (by simp [IndicesRight, empty]) nodes).mpr ?_
  intro node _ p hp
  simp [findTask, empty] at hp

/-! ### What the callbacks do -/

theorem onTask_eq_some {n : ℕ} {f : SyncerTask → Option SyncerTask}
    (h : this.onTask n f = some that) :
    ∃ p task, this.task[n]? = some p ∧ f (this.heap p) = some task ∧
      that = { this with heap := Function.update this.heap p task } := by
  obtain ⟨p, hp, h⟩ := Option.bind_eq_some_iff.mp h
  obtain ⟨task, htask, rfl⟩ := Option.map_eq_some_iff.mp h
  exact ⟨p, task, hp, htask, rfl⟩

/-- The numbers and the array, which a callback leaves alone. -/
def SameNumbers (this that : Syncer) : Prop :=
  that.task = this.task ∧ that.next = this.next ∧ that.refcnt = this.refcnt ∧
    ∀ p, (that.heap p).cbArg2 = (this.heap p).cbArg2

theorem SameNumbers.trans {other : Syncer} (h : SameNumbers this that)
    (h' : SameNumbers that other) : SameNumbers this other :=
  ⟨h'.1.trans h.1, h'.2.1.trans h.2.1, h'.2.2.1.trans h.2.2.1,
    fun p => (h'.2.2.2 p).trans (h.2.2.2 p)⟩

theorem SameNumbers.sound (h : SameNumbers this that) (hs : this.Sound) : that.Sound := by
  obtain ⟨htask, hnext, hrefcnt, -⟩ := h
  exact ⟨by rw [htask, hnext]; exact hs.lt, by rw [htask, hrefcnt]; exact hs.refcnt⟩

theorem SameNumbers.indicesRight (h : SameNumbers this that) (hright : this.IndicesRight) :
    that.IndicesRight := by
  intro i p hp
  rw [h.2.2.2]
  exact hright i p (h.1 ▸ hp)

theorem sameNumbers_update {p : ℕ} {task : SyncerTask}
    (h : task.cbArg2 = (this.heap p).cbArg2) :
    SameNumbers this { this with heap := Function.update this.heap p task } := by
  refine ⟨rfl, rfl, rfl, fun q => ?_⟩
  dsimp only
  by_cases hq : q = p
  · rw [hq, Function.update_self, h]
  · rw [Function.update_of_ne hq]

theorem sameNumbers_onTask {n : ℕ} {f : SyncerTask → Option SyncerTask}
    (hf : ∀ task task', f task = some task' → task'.cbArg2 = task.cbArg2)
    (h : this.onTask n f = some that) : SameNumbers this that := by
  obtain ⟨p, task, -, htask, rfl⟩ := onTask_eq_some h
  exact sameNumbers_update (hf _ _ htask)

theorem cbArg2_queue (task : SyncerTask) (packet : Packet) :
    (task.queue packet).cbArg2 = task.cbArg2 := by
  rw [SyncerTask.queue]
  split <;> rfl

theorem cbArg2_ackPending (task : SyncerTask) : task.ackPending.cbArg2 = task.cbArg2 := by
  rw [SyncerTask.ackPending]
  split <;> rfl

theorem cbArg2_ended (task : SyncerTask) (packet : Packet) :
    (task.ended packet).cbArg2 = task.cbArg2 := by
  rw [SyncerTask.ended, SyncerTask.reschedule]
  split <;> exact cbArg2_queue _ _

theorem cbArg2_replied {task task' : SyncerTask} {full : Packet}
    (h : task.replied full = some task') : task'.cbArg2 = task.cbArg2 := by
  obtain ⟨statusCode, -, rfl⟩ := Option.map_eq_some_iff.mp h
  split
  · rw [cbArg2_queue, cbArg2_ackPending]
  · exact cbArg2_ackPending task

theorem cbArg2_restarted {task task' : SyncerTask} {full : Packet}
    (h : task.restarted full = some task') : task'.cbArg2 = task.cbArg2 := by
  rw [SyncerTask.restarted, SyncerTask.start] at h
  split at h
  · obtain rfl := Option.some.inj h
    exact cbArg2_queue task full
  · contradiction

theorem sameNumbers_startConfig {n : ℕ} {full : Packet}
    (h : this.startConfig n full = some that) : SameNumbers this that :=
  sameNumbers_onTask (fun _ _ => cbArg2_restarted) h

theorem sameNumbers_startAll {full : Packet} (h : this.startAll full = some that) :
    SameNumbers this that := by
  refine Fold.preserves (P := SameNumbers this) ?_ _ ⟨rfl, rfl, rfl, fun _ => rfl⟩ h
  intro s i s' hs hround
  obtain ⟨p, -, hround⟩ := Option.bind_eq_some_iff.mp hround
  split at hround
  · exact hs.trans (sameNumbers_startConfig hround)
  · exact Option.some.inj hround ▸ hs

/-- Nothing but a reload changes the array or the number of a task. -/
theorem sameNumbers_step {l : Step} (hl : ∀ nodes, l ≠ .reload nodes)
    (h : this.step l = some that) : SameNumbers this that := by
  cases l with
  | reload nodes => exact absurd rfl (hl nodes)
  | startAll full => exact sameNumbers_startAll h
  | status p statusCode full =>
    simp only [step] at h
    split at h
    · exact (sameNumbers_update (by rfl)).trans (sameNumbers_onTask (fun _ _ => cbArg2_replied) h)
    · contradiction
  | sessionEnd p checkserial =>
    simp only [step] at h
    split at h
    · refine sameNumbers_onTask (fun task task' htask => ?_) h
      rw [← Option.some.inj htask, cbArg2_ended]
    · contradiction
  | restart p full =>
    simp only [step] at h
    split at h
    · exact (sameNumbers_update (by rfl)).trans (sameNumbers_startConfig h)
    · contradiction

/-! ### Runs that keep the tasks in place -/

/-- The states of the runs of a syncer whose reloads keep the tasks in place. -/
abbrev Reachable : Syncer → Prop :=
  Transition.Reachable (fun s => ∃ nodes, new nodes = some s) KeepsInPlace step

/-- The invariant of these runs. -/
structure Numbered (this : Syncer) : Prop where
  sound : this.Sound
  right : this.IndicesRight

theorem numbered_of_reachable (h : Reachable this) : this.Numbered := by
  refine h.invariant ?_ ?_
  · rintro s ⟨nodes, hnew⟩
    rw [new] at hnew
    split at hnew
    · contradiction
    · obtain rfl := Option.some.inj hnew
      exact ⟨(sound_empty.reload nodes).1, indicesRight_empty_reload nodes⟩
  · intro s l s' hs hok hstep
    by_cases hl : ∃ nodes, l = .reload nodes
    · obtain ⟨nodes, rfl⟩ := hl
      obtain rfl := Option.some.inj hstep
      exact ⟨(hs.sound.reload nodes).1, (hs.sound.indicesRight_reload_iff hs.right nodes).mpr hok⟩
    · have hsame := sameNumbers_step (fun nodes heq => hl ⟨nodes, heq⟩) hstep
      exact ⟨hsame.sound hs.sound, hsame.indicesRight hs.right⟩

/-- A callback called by a task acts on this task. -/
theorem Numbered.onTask (h : this.Numbered) {p : ℕ} (hp : this.Live p)
    (f : SyncerTask → Option SyncerTask) :
    this.onTask (this.heap p).cbArg2 f = (f (this.heap p)).map fun task =>
      { this with heap := Function.update this.heap p task } := by
  obtain ⟨i, hi⟩ := List.getElem?_of_mem (h.sound.live_iff.mp hp)
  rw [Syncer.onTask, h.right i p hi, hi, Option.bind_some]

/-- **Callbacks act on the task that calls them.** In every state of every run whose reloads keep
the tasks in place:
* the number of each task of the array is its index;
* a task that is not freed is in the array, and its callbacks change it and no other task;
* a reload keeps the numbers right exactly when it keeps the tasks in place. -/
theorem reachable_callbacks (h : Reachable this) :
    (∀ i p, this.task[i]? = some p → (this.heap p).cbArg2 = i) ∧
    (∀ p, this.Live p → this.task[(this.heap p).cbArg2]? = some p ∧
      (∀ checkserial, this.endCb (this.heap p).cbArg2 checkserial =
        some { this with
          heap := Function.update this.heap p ((this.heap p).ended checkserial) }) ∧
      (∀ full, this.statusCb (this.heap p).cbArg2 full =
        ((this.heap p).replied full).map fun task =>
          { this with heap := Function.update this.heap p task }) ∧
      ∀ full, this.startConfig (this.heap p).cbArg2 full =
        ((this.heap p).restarted full).map fun task =>
          { this with heap := Function.update this.heap p task }) ∧
    ∀ nodes, (∀ i p, (this.reload nodes).task[i]? = some p →
      ((this.reload nodes).heap p).cbArg2 = i) ↔ this.InPlace nodes := by
  have hs := numbered_of_reachable h
  refine ⟨hs.right, fun p hp => ⟨?_, fun checkserial => ?_, fun full => ?_, fun full => ?_⟩,
    hs.sound.indicesRight_reload_iff hs.right⟩
  · obtain ⟨i, hi⟩ := List.getElem?_of_mem (hs.sound.live_iff.mp hp)
    rw [hs.right i p hi, hi]
  · rw [endCb, hs.onTask hp]
    rfl
  · exact hs.onTask hp _
  · exact hs.onTask hp _

/-- A node, by its host. -/
def nodeOf (host : String) : ConfigNode := ⟨cstr host, 2101, false, 10⟩

/-- Two nodes are configured, their tasks are started, a third node is added, and the session of the
second one ends. -/
def growing : List Step :=
  [.startAll (.new [70]), .reload [nodeOf "a.example", nodeOf "b.example", nodeOf "c.example"],
    .startAll (.new [70]), .sessionEnd 1 (.new [67])]

theorem reachable_callbacks_growing :
    ∃ s, Reachable s ∧ s.task = [0, 1, 2] ∧ (s.heap 1).ev ∧ s.Live 1 ∧
      s.task[(s.heap 1).cbArg2]? = some 1 := by
  have hobserve : ((new [nodeOf "a.example", nodeOf "b.example"]).bind fun s =>
      growing.foldlM (fun s l => if KeepsInPlace s l then step s l else none) s).map
        (fun s => (s.task, (s.heap 1).ev, decide (s.Live 1))) = some ([0, 1, 2], true, true) := by
    decide
  obtain ⟨s, hrun, hs⟩ := Option.map_eq_some_iff.mp hobserve
  obtain ⟨s₀, hnew, hrun⟩ := Option.bind_eq_some_iff.mp hrun
  have hreach : Reachable s := Transition.reachable_of_foldlM (.refl ⟨_, hnew⟩) hrun
  obtain ⟨htask, hev, hlive⟩ := (by simpa using hs : s.task = [0, 1, 2] ∧ (s.heap 1).ev ∧ s.Live 1)
  exact ⟨s, hreach, htask, hev, hlive, ((reachable_callbacks hreach).2.1 1 hlive).1⟩

/-- **A task that moves keeps its number.** When the first of two nodes is removed, the task of the
other one is the only task, and its callbacks still use the index 1: they read outside the array. -/
theorem endCb_outside_array :
    ∃ s, new [nodeOf "a.example", nodeOf "b.example"] = some s ∧
      (s.reload [nodeOf "b.example"]).task = [1] ∧
      ((s.reload [nodeOf "b.example"]).heap 1).cbArg2 = 1 ∧
      ((s.reload [nodeOf "b.example"]).endCb 1 (.new [67])).isNone := by
  exact ⟨_, rfl, by decide, by decide, by decide⟩

end Syncer

end ChilopodCaster
