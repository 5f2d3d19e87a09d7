import ChilopodCaster.ClientRound

/-!
# What stands behind a reply

What a client session does with a line of a reply is the same whatever stands behind the line, and
the bytes behind it stay where they are. A status can make the task queue an item, and the end of
the headers can make it send one: neither looks at the input.

## Main definitions

* `Client.received` — a session with more bytes in its buffer
* `Outcome.received` — an outcome, with more bytes in the buffer

## Main results

* `statusLine_received`, `headerLine_received`, `lineCb_received` — the bytes behind a line
-/

namespace ChilopodCaster

namespace Ntripcli

open ChunkDecode

namespace Client

variable {F : Type} {s s' : Client F} {env : Env F} {i j : ℕ} {bytes : List Byte}

/-- More bytes in the buffer of a session. -/
def received (i : ℕ) (bytes : List Byte) (s : Client F) : Client F :=
  s.modifySt i fun st => st.receive bytes

/-- The outcome, with more bytes in the buffer. -/
def Outcome.received (i : ℕ) (bytes : List Byte) : Outcome F → Outcome F
  | .inl s => .inl (s.received i bytes)
  | .inr none => .inr none
  | .inr (some (s, fin)) => .inr (some (s.received i bytes, fin))

/-! What is looked at is the same with more bytes in the buffer. -/

theorem heap_received (j : ℕ) : ∃ rest, (s.received i bytes).heap j =
    { s.heap j with rawInput := (s.heap j).rawInput ++ rest } := by
  by_cases hj : j = i
  · subst hj
    exact ⟨bytes, heap_modifySt_self s j _⟩
  · refine ⟨[], ?_⟩
    rw [received, heap_modifySt_of_ne s hj, List.append_nil]

@[simp] theorem task_received : (s.received i bytes).task = s.task := by rfl

@[simp] theorem state_received (j : ℕ) :
    ((s.received i bytes).heap j).state = (s.heap j).state := by
  obtain ⟨rest, h⟩ := @heap_received F s i bytes j
  rw [h]

@[simp] theorem statusCode_received (j : ℕ) :
    ((s.received i bytes).heap j).statusCode = (s.heap j).statusCode := by
  obtain ⟨rest, h⟩ := @heap_received F s i bytes j
  rw [h]

@[simp] theorem hasTask_received (j : ℕ) :
    ((s.received i bytes).heap j).task = (s.heap j).task := by
  obtain ⟨rest, h⟩ := @heap_received F s i bytes j
  rw [h]

@[simp] theorem mountpoint_received (j : ℕ) :
    ((s.received i bytes).heap j).mountpoint = (s.heap j).mountpoint := by
  obtain ⟨rest, h⟩ := @heap_received F s i bytes j
  rw [h]

@[simp] theorem chunkState_received (j : ℕ) :
    ((s.received i bytes).heap j).chunkState = (s.heap j).chunkState := by
  obtain ⟨rest, h⟩ := @heap_received F s i bytes j
  rw [h]

@[simp] theorem contentLength_received (j : ℕ) :
    ((s.received i bytes).heap j).contentLength = (s.heap j).contentLength := by
  obtain ⟨rest, h⟩ := @heap_received F s i bytes j
  rw [h]

@[simp] theorem keepalive_received (j : ℕ) :
    ((s.received i bytes).heap j).connectionKeepalive = (s.heap j).connectionKeepalive ∧
      ((s.received i bytes).heap j).receivedKeepalive = (s.heap j).receivedKeepalive := by
  obtain ⟨rest, h⟩ := @heap_received F s i bytes j
  rw [h]
  exact ⟨rfl, rfl⟩

/-- A change that does not look at the buffer. -/
theorem modifySt_received {f : NtripState → NtripState}
    (hf : ∀ st, f (st.receive bytes) = (f st).receive bytes) (j : ℕ) :
    (s.received i bytes).modifySt j f = (s.modifySt j f).received i bytes := by
  have hheap : ∀ k, ((s.received i bytes).modifySt j f).heap k =
      ((s.modifySt j f).received i bytes).heap k := by
    intro k
    by_cases hk : k = j
    · subst hk
      rw [heap_modifySt_self]
      by_cases hi : k = i
      · subst hi
        rw [received, received, heap_modifySt_self, heap_modifySt_self, heap_modifySt_self, hf]
      · rw [received, received, heap_modifySt_of_ne _ hi, heap_modifySt_of_ne _ hi,
          heap_modifySt_self]
    · rw [heap_modifySt_of_ne _ hk]
      by_cases hi : k = i
      · subst hi
        rw [received, received, heap_modifySt_self, heap_modifySt_self, heap_modifySt_of_ne _ hk]
      · rw [received, received, heap_modifySt_of_ne _ hi, heap_modifySt_of_ne _ hi,
          heap_modifySt_of_ne _ hk]
  exact congrArg (fun heap => (⟨s.task, heap, s.next⟩ : Client F)) (funext hheap)

theorem setState_received (state : SessionState) (j : ℕ) :
    (s.received i bytes).setState j state = (s.setState j state).received i bytes :=
  modifySt_received (fun _ => rfl) j

theorem setQueue_received (queue : Task) :
    (s.received i bytes).setQueue queue = (s.setQueue queue).received i bytes := rfl

theorem setOwner_received (owner : TaskOwner F) :
    (s.received i bytes).setOwner owner = (s.setOwner owner).received i bytes := rfl

@[simp] theorem received_inl : Outcome.received i bytes (.inl s) = .inl (s.received i bytes) := rfl

@[simp] theorem received_inr_none :
    Outcome.received i bytes (.inr none : Outcome F) = .inr none := rfl

@[simp] theorem received_leave (fin : Bool) :
    Outcome.received i bytes (leave s fin) = leave (s.received i bytes) fin := rfl

@[simp] theorem received_goOn (o : Option (Client F)) :
    Outcome.received i bytes (goOn o) = goOn (o.map (received i bytes)) := by
  cases o <;> rfl

/-! ### The queue -/

theorem sendNextRequest_received (j : ℕ) :
    (s.received i bytes).sendNextRequest j = (s.sendNextRequest j).map (received i bytes) := by
  rw [sendNextRequest, sendNextRequest, state_received]
  split
  · rfl
  · rw [Option.map_map, task_received]
    refine congrArg (fun f => Option.map f _) (funext fun r => ?_)
    cases h : r.2 with
    | none =>
      simp only [h, Function.comp]
      rfl
    | some request =>
      simp only [h, Function.comp]
      rw [setQueue_received, setState_received]

theorem sendIfIdle_received :
    (s.received i bytes).sendIfIdle = s.sendIfIdle.map (received i bytes) := by
  rw [sendIfIdle, sendIfIdle, task_received]
  cases s.task.st with
  | none => rfl
  | some j =>
    dsimp only
    rw [state_received, sendNextRequest_received]
    split <;> rfl

theorem taskQueue_received (packet : Packet) :
    (s.received i bytes).taskQueue packet = (s.taskQueue packet).map (received i bytes) := by
  rw [taskQueue, taskQueue, task_received]
  split
  · rfl
  · dsimp only
    rw [Option.map_bind]
    refine congrArg (fun f => Option.bind _ f) (funext fun queue => ?_)
    exact sendIfIdle_received (s := s.insertItem queue ⟨s.task.allocated, packet⟩)

theorem ackPending_received :
    (s.received i bytes).ackPending = s.ackPending.map (received i bytes) := by
  rw [ackPending, ackPending, Option.map_map, task_received]
  rfl

/-! ### The lines of a reply -/

theorem statusCb_received (status : BitVec 32) :
    (s.received i bytes).statusCb env j status =
      (s.statusCb env j status).map (received i bytes) := by
  rw [statusCb, statusCb, hasTask_received, task_received]
  split
  · split
    · cases s.task.st with
      | none => rfl
      | some k =>
        rw [Option.bind_some, Option.bind_some, ackPending_received, Option.bind_map,
          Option.map_bind]
        refine congrArg (fun f => Option.bind _ f) (funext fun s₁ => ?_)
        simp only [Function.comp, statusCode_received, taskQueue_received]
        split <;> rfl
    · cases s.task.st with
      | none => rfl
      | some k =>
        dsimp only [Option.bind_some]
        rw [modifySt_received (fun _ => rfl)]
        split
        · rw [statusCode_received, ackPending_received]
          split <;> rfl
        · rw [statusCode_received, ackPending_received]
          split <;> rfl
    · rfl
  · rfl

theorem gotStatus_received (icy : Bool) (status : BitVec 32) :
    (s.received i bytes).gotStatus env j icy status =
      (s.gotStatus env j icy status).received i bytes := by
  rw [gotStatus, gotStatus, modifySt_received (fun _ => rfl)]
  generalize s.modifySt j (fun st => { st with statusCode := status.truncate 16 }) = s₁
  have hregister : (if icy ∧ ((s₁.received i bytes).heap j).mountpoint = [] ∧ status = 200 then
      (s₁.received i bytes).setState j .registerSource else s₁.received i bytes) =
      (if icy ∧ (s₁.heap j).mountpoint = [] ∧ status = 200 then
        s₁.setState j .registerSource else s₁).received i bytes := by
    rw [mountpoint_received, setState_received]
    split <;> rfl
  rw [hregister, statusCb_received]
  generalize (if icy ∧ (s₁.heap j).mountpoint = [] ∧ status = 200 then
    s₁.setState j .registerSource else s₁) = s₂
  cases s₂.statusCb env j status with
  | none => rfl
  | some s₃ =>
    dsimp only [Option.map_some]
    rw [statusCode_received, setState_received]
    split <;> rfl

theorem statusLine_received (line : List Byte) :
    (s.received i bytes).statusLine env j line = (s.statusLine env j line).received i bytes := by
  rw [statusLine, statusLine, modifySt_received (fun _ => rfl)]
  generalize s.modifySt j
    (fun st => { st with httpArgs := (splitArgs (toCString line)).take 3 }) = s₁
  split
  · rfl
  · split
    · split
      · rfl
      · split
        · rfl
        · exact gotStatus_received _ _
    · rfl

theorem setHeader_received (key value : CString) :
    (s.received i bytes).setHeader env j key value =
      (s.setHeader env j key value).received i bytes := by
  rw [setHeader, setHeader]
  split
  · rw [modifySt_received (fun _ => rfl)]
    split <;> rfl
  · split
    · rw [modifySt_received (fun _ => rfl)]
      split <;> rfl
    · split
      · split
        · rfl
        · rw [modifySt_received (fun _ => rfl)]
          split <;> rfl
      · split
        · rw [modifySt_received (fun _ => rfl)]
          rfl
        · rfl

theorem replyOver_received :
    (s.received i bytes).replyOver j = (s.replyOver j).received i bytes := by
  rw [replyOver, replyOver]
  obtain ⟨hconnection, hreceived⟩ := @keepalive_received _ s i bytes j
  rw [hconnection, hreceived, setState_received]
  split
  · dsimp only
    rw [hasTask_received, sendNextRequest_received]
    split
    · rw [received_goOn]
    · rfl
  · rfl

theorem afterHeaders_received :
    (s.received i bytes).afterHeaders j = (s.afterHeaders j).received i bytes := by
  rw [afterHeaders, afterHeaders, mountpoint_received, hasTask_received, task_received,
    contentLength_received,
    chunkState_received, setState_received, setState_received, setState_received,
    setState_received, replyOver_received]
  split
  · rfl
  · split
    · rfl
    · split
      · rfl
      · split <;> rfl

theorem headerLine_received (h : (s.heap j).chunkState ≠ .chunkInit) (line : List Byte) :
    (s.received i bytes).headerLine env j line = (s.headerLine env j line).received i bytes := by
  rw [headerLine, headerLine]
  split
  · rw [endHeaders, endHeaders, chunkState_received, if_neg h, if_neg h]
    exact afterHeaders_received
  · split
    · rfl
    · exact setHeader_received _ _

/-! ### The lines of a table -/

theorem clearSt_received : (s.received i bytes).clearSt = s.clearSt.received i bytes := by
  have hget : ∀ k, s.task.st = some k →
      (s.received i bytes).clearGetSt = s.clearGetSt.received i bytes := by
    intro k hk
    rw [clearGetSt, clearGetSt, task_received, hk]
    exact modifySt_received (s := { s with task := { s.task with st := none } }) (fun _ => rfl) k
  rw [clearSt, clearSt, task_received]
  cases hk : s.task.st with
  | none => rfl
  | some k =>
    dsimp only
    rw [hget k hk, modifySt_received (fun _ => rfl)]

theorem reschedule_received : (s.received i bytes).reschedule = s.reschedule.received i bytes := by
  rw [reschedule, reschedule, task_received]
  split <;> rfl

theorem lineCb_received (line : CString) :
    (s.received i bytes).lineCb env j line =
      (s.lineCb env j line).map fun r => (r.1.received i bytes, r.2) := by
  rw [lineCb, lineCb, task_received]
  split
  · dsimp only
    rw [setOwner_received, clearSt_received, reschedule_received, modifySt_received (fun _ => rfl)]
    split <;> rfl
  · rfl

end Client

end Ntripcli

end ChilopodCaster
