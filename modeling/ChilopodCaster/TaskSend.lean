import ChilopodCaster.Session
import ChilopodCaster.Task
import Mathlib.Logic.Function.Basic

/-!
# Threads that queue items at the same time

Any thread may call `ntrip_task_queue`, while the event loop handles the replies of the server.
After its insertion a thread adds 1 to the counter `restart_sending`; if it was 0 the thread is
elected, takes the lock of the session and sends a request if the session is idle. At the end it
takes 1 away from the counter. The others rely on the one that was elected.

A thread moves from one atomic operation or critical section to the next. All that happens under
the lock of the session is one step, since the state of the session changes under this lock only. A
session is known by a number, which stands for its address.

## Main definitions

* `SendPc` — where a thread is in `ntrip_task_queue`
* `SendSystem` — the threads, the task and its session
* `SendSystem.Stuck` — items that nothing will send
* `SendSystem.Covered` — whether the losers of an election can rely on its winner

## Main results

* `SendSystem.not_stuck` — no item is stuck if every thread that loses the election is covered
* `SendSystem.stuck_uncoveredLoser` — a run in which one is stuck
-/

namespace ChilopodCaster

/-- Where a thread is in `ntrip_task_queue`: before which of its sections. -/
inductive SendPc
  | out
  | check (m : MimeContent)
  | drain (m : MimeContent)
  | insert (m : MimeContent)
  | elect
  | elected
  | lock (session : ℕ)
  | release
  deriving DecidableEq, Repr

/-- The task, its session if it has one, whether it may be restarted, and the threads. -/
structure SendSystem (θ : Type) where
  task : Task
  session : Option (ℕ × SessionState)
  rescheduled : Bool
  restartSending : ℕ
  allocated : ℕ
  sessions : ℕ
  pc : θ → SendPc

/-- The steps: those of the threads and those of the session. -/
inductive SendStep (θ : Type)
  /-- a thread calls `ntrip_task_queue` -/
  | call (t : θ) (packet : Packet)
  /-- a thread goes on -/
  | run (t : θ)
  /-- `ntrip_task_start` -/
  | start
  /-- the session is connected: `connect_cb` -/
  | connected
  /-- the status of the reply: `ntrip_task_ack_pending` -/
  | status
  /-- the end of the reply: `ntrip_task_send_next_request` -/
  | replyEnd
  /-- the end of the session -/
  | sessionEnd
  /-- `ntrip_task_reschedule` -/
  | reschedule

namespace SendSystem

variable {θ : Type}

/-- A new task, before its first session. -/
def new (θ : Type) (bulkMaxSize queueMaxSize : ℕ) : SendSystem θ where
  task := .new bulkMaxSize queueMaxSize
  session := none
  rescheduled := true
  restartSending := 0
  allocated := 0
  sessions := 0
  pc _ := .out

/-- The thread goes to some place. -/
def goto [DecidableEq θ] (s : SendSystem θ) (t : θ) (pc : SendPc) : SendSystem θ :=
  { s with pc := Function.update s.pc t pc }

/-- The state of the current session. -/
def setState (s : SendSystem θ) (state : SessionState) : SendSystem θ :=
  { s with session := s.session.map fun session => (session.1, state) }

/-- `ntrip_task_send_next_request` on the current session, which is idle. -/
def sendNextRequest (s : SendSystem θ) : Option (SendSystem θ) :=
  s.task.sendNextRequest.map fun r =>
    if r.2.isSome then { s with task := r.1 }.setState .waitHttpStatus else { s with task := r.1 }

/-- The next section of `ntrip_task_queue`. -/
def run [DecidableEq θ] (s : SendSystem θ) (t : θ) : Option (SendSystem θ) :=
  match s.pc t with
  | .out => none
  | .check m => some (s.goto t (if s.task.Overflows m then .drain m else .insert m))
  | .drain m => s.task.drainQueue.map fun r => { s with task := r.1 }.goto t (.insert m)
  | .insert m =>
    some ((if s.task.Oversize m then s else { s with task := s.task.insert m }).goto t .elect)
  | .elect =>
    some ({ s with restartSending := s.restartSending + 1 }.goto t
      (if s.restartSending = 0 then .elected else .release))
  | .elected =>
    some (s.goto t (match s.session with
      | none => .release
      | some session => .lock session.1))
  | .lock session =>
    if s.session = some (session, .idleClient) then s.sendNextRequest.map (·.goto t .release)
    else some (s.goto t .release)
  | .release => some ({ s with restartSending := s.restartSending - 1 }.goto t .out)

/-- The current session is in some state. -/
def InState (s : SendSystem θ) (state : SessionState) : Prop :=
  s.session.map Prod.snd = some state

instance (s : SendSystem θ) (state : SessionState) : Decidable (s.InState state) :=
  inferInstanceAs (Decidable (_ = _))

/-- One step. -/
def step [DecidableEq θ] (s : SendSystem θ) : SendStep θ → Option (SendSystem θ)
  | .call t packet =>
    if s.pc t ≠ .out ∨ s.task.state = .taskEnd then none
    else some ({ s with allocated := s.allocated + 1 }.goto t (.check ⟨s.allocated, packet⟩))
  | .run t => s.run t
  | .start =>
    if s.session ≠ none ∨ s.rescheduled = false then none
    else some
      { s with
        task := { s.task with state := .taskRunning }
        session := some (s.sessions, .init)
        rescheduled := false
        sessions := s.sessions + 1 }
  | .connected => if s.InState .init then (s.setState .idleClient).sendNextRequest else none
  | .status =>
    if s.InState .waitHttpStatus then
      s.task.ackPending.map fun r => { s with task := r.1 }.setState .waitHttpHeader
    else none
  | .replyEnd =>
    if s.InState .waitHttpHeader then (s.setState .idleClient).sendNextRequest else none
  | .sessionEnd => if s.session = none then none else some { s with session := none }
  | .reschedule =>
    if s.session ≠ none ∨ s.rescheduled = true then none
    else some { s with task := s.task.reschedule, rescheduled := true }

/-- Items are queued on an idle session, none waits for a reply, and no thread is in
`ntrip_task_queue`. -/
def Stuck (s : SendSystem θ) : Prop :=
  s.InState .idleClient ∧ s.task.mimeq ≠ [] ∧ s.task.pending = 0 ∧ ∀ t, s.pc t = .out

/-- A thread was elected and has yet to take the lock of the current session. -/
def WillLock (s : SendSystem θ) (t : θ) : Prop :=
  s.pc t = .elected ∨ ∃ session ∈ s.session.map Prod.fst, s.pc t = .lock session

/-- A thread that loses the election does so while an elected one has yet to take the lock of the
current session. -/
def Covered (s : SendSystem θ) : SendStep θ → Prop
  | .run t => s.pc t = .elect → s.restartSending ≠ 0 → ∃ t', s.WillLock t'
  | _ => True

/-! ### The invariant -/

/-- A thread that will take care of the items queued: it has yet to be elected, or to take the lock
of the current session. -/
def Pledged (s : SendSystem θ) (t : θ) : Prop := s.pc t = .elect ∨ s.WillLock t

/-- Items that could be sent now. -/
def Sendable (s : SendSystem θ) : Prop :=
  s.InState .idleClient ∧ s.task.mimeq ≠ [] ∧ s.task.pending = 0

/-- The invariant: as long as items could be sent now, some thread will take care of them. -/
structure Awaited (s : SendSystem θ) : Prop where
  fits : s.task.Fits
  pledged : s.Sendable → ∃ t, s.Pledged t

variable {s s' : SendSystem θ} {t : θ}

/-- Whether a thread is pledged depends on where it is and on which session is the current one. -/
theorem Pledged.congr (h : s.Pledged t) (hpc : s'.pc t = s.pc t)
    (hsession : s'.session.map Prod.fst = s.session.map Prod.fst) : s'.Pledged t := by
  rw [Pledged, WillLock, hpc, hsession]
  exact h

/-- A thread that is not pledged goes somewhere. -/
theorem Awaited.goto [DecidableEq θ] (h : s.Awaited) (hfits : s'.task.Fits) {pc : SendPc}
    (hpc : s'.pc = s.pc) (hsession : s'.session = s.session)
    (hsendable : s'.Sendable → s.Sendable) (ht : s.Sendable → ¬ s.Pledged t) :
    (s'.goto t pc).Awaited where
  fits := hfits
  pledged hs' := by
    obtain ⟨t', ht'⟩ := h.pledged (hsendable hs')
    have hne : t' ≠ t := fun heq => ht (hsendable hs') (heq ▸ ht')
    refine ⟨t', ht'.congr ?_ (by rw [← hsession]; rfl)⟩
    rw [← hpc]
    exact Function.update_of_ne hne _ _

theorem awaited_of_not_sendable (hfits : s.task.Fits) (h : ¬ s.Sendable) : s.Awaited :=
  ⟨hfits, fun hs => absurd hs h⟩

theorem inState_setState {state state' : SessionState} (h : s.InState state) :
    (s.setState state').InState state' := by
  obtain ⟨session, hsession, -⟩ := Option.map_eq_some_iff.mp h
  rw [InState, setState, hsession]
  rfl

/-- After `ntrip_task_send_next_request`, there is nothing to send or the session is not idle. -/
theorem sendNextRequest_eq_some (hfits : s.task.Fits) (hidle : s.InState .idleClient)
    (h : s.sendNextRequest = some s') :
    s'.task.Fits ∧ ¬ s'.Sendable ∧ s'.pc = s.pc := by
  obtain ⟨⟨task, request⟩, hsend, hs'⟩ := Option.map_eq_some_iff.mp h
  obtain ⟨hmimeq, hbulk, hnone⟩ := Task.sendNextRequest_eq_some hfits hsend
  have hfits' : task.Fits := hfits.sublist hbulk (hmimeq ▸ List.Sublist.refl _)
  dsimp only at hs'
  split at hs'
  · rw [← hs']
    refine ⟨hfits', ?_, rfl⟩
    rintro ⟨hstate, -⟩
    have hwait : ({ s with task := task }.setState .waitHttpStatus).InState .waitHttpStatus :=
      inState_setState hidle
    rw [InState] at hstate hwait
    rw [hwait] at hstate
    simp at hstate
  · next hsome =>
    rw [← hs']
    refine ⟨hfits', ?_, rfl⟩
    rintro ⟨-, hne, -⟩
    exact hne (hmimeq.trans (hnone (by simpa using hsome)))

/-- A thread keeps the invariant, if it does not lose the election for nothing. -/
theorem Awaited.run [DecidableEq θ] (h : s.Awaited) (hcovered : s.Covered (.run t))
    (hrun : s.run t = some s') : s'.Awaited := by
  rw [SendSystem.run] at hrun
  cases hpc : s.pc t with
  | out => simp [hpc] at hrun
  | check m =>
    simp only [hpc, Option.some.injEq] at hrun
    subst hrun
    refine h.goto h.fits rfl rfl id ?_
    intro _ ht
    simp [Pledged, WillLock, hpc] at ht
  | drain m =>
    simp only [hpc] at hrun
    obtain ⟨⟨task, items⟩, hdrain, rfl⟩ := Option.map_eq_some_iff.mp hrun
    obtain ⟨hmimeq, hpending, hbulk⟩ := Task.drainQueue_eq_some hdrain
    have hsub : task.mimeq.Sublist s.task.mimeq := hmimeq ▸ List.take_sublist _ _
    refine h.goto (h.fits.sublist hbulk hsub) rfl rfl ?_ ?_
    · rintro ⟨hidle, hne, hzero⟩
      refine ⟨hidle, ?_, hpending ▸ hzero⟩
      intro hnil
      exact hne (List.sublist_nil.mp (hnil ▸ hsub))
    · intro _ ht
      simp [Pledged, WillLock, hpc] at ht
  | insert m =>
    simp only [hpc, Option.some.injEq] at hrun
    subst hrun
    refine ⟨?_, fun _ => ⟨t, .inl (Function.update_self _ _ _)⟩⟩
    split
    · exact h.fits
    · next hsize => exact h.fits.insert hsize
  | elect =>
    simp only [hpc, Option.some.injEq] at hrun
    subst hrun
    split
    · exact ⟨h.fits, fun _ => ⟨t, .inr (.inl (Function.update_self _ _ _))⟩⟩
    · next hlost =>
      obtain ⟨t', ht'⟩ := hcovered hpc hlost
      have hne : t' ≠ t := by
        rintro rfl
        simp [WillLock, hpc] at ht'
      refine ⟨h.fits, fun _ => ⟨t', Pledged.congr (s := s) (.inr ht') ?_ rfl⟩⟩
      exact Function.update_of_ne hne _ _
  | elected =>
    simp only [hpc, Option.some.injEq] at hrun
    subst hrun
    refine ⟨h.fits, fun hs' => ⟨t, ?_⟩⟩
    obtain ⟨session, hsession, -⟩ := Option.map_eq_some_iff.mp hs'.1
    change s.session = some session at hsession
    refine .inr (.inr ⟨session.1, ?_, ?_⟩)
    · exact congrArg (Option.map Prod.fst) hsession
    · rw [hsession]
      exact Function.update_self _ _ _
  | lock session =>
    simp only [hpc] at hrun
    split at hrun
    · next hidle =>
      obtain ⟨s₁, hsend, rfl⟩ := Option.map_eq_some_iff.mp hrun
      have hstate : s.InState .idleClient := by
        rw [InState, hidle]
        rfl
      obtain ⟨hfits, hnone, -⟩ := sendNextRequest_eq_some h.fits hstate hsend
      exact awaited_of_not_sendable hfits hnone
    · next hother =>
      simp only [Option.some.injEq] at hrun
      subst hrun
      refine h.goto h.fits rfl rfl id ?_
      rintro ⟨hidle, -⟩ ht
      obtain ⟨current, hcurrent, hstate⟩ := Option.map_eq_some_iff.mp hidle
      simp only [Pledged, WillLock, hpc, hcurrent, Option.map_some, Option.mem_def,
        Option.some.injEq, SendPc.lock.injEq, reduceCtorEq, false_or, exists_eq_left'] at ht
      exact hother (hcurrent.trans (congrArg some (Prod.ext ht.symm hstate)))
  | release =>
    simp only [hpc, Option.some.injEq] at hrun
    subst hrun
    refine h.goto ?_ rfl rfl ?_ ?_
    · exact h.fits
    · exact id
    · intro _ ht
      simp [Pledged, WillLock, hpc] at ht

/-- A session whose state is not `NTRIP_IDLE_CLIENT` has nothing to send. -/
theorem awaited_of_inState (hfits : s.task.Fits) {state : SessionState} (hstate : s.InState state)
    (hne : state ≠ .idleClient) : s.Awaited := by
  refine awaited_of_not_sendable hfits ?_
  rintro ⟨hidle, -⟩
  rw [InState] at hidle hstate
  rw [hidle] at hstate
  exact hne (Option.some.inj hstate).symm

theorem awaited_of_no_session (hfits : s.task.Fits) (h : s.session = none) : s.Awaited := by
  refine awaited_of_not_sendable hfits ?_
  rintro ⟨hidle, -⟩
  rw [InState, h] at hidle
  contradiction

/-- A session becomes idle and sends the next request. -/
theorem Awaited.becomesIdle (h : s.Awaited) {state : SessionState} (hstate : s.InState state)
    (hsend : (s.setState .idleClient).sendNextRequest = some s') : s'.Awaited := by
  obtain ⟨hfits, hnone, -⟩ := SendSystem.sendNextRequest_eq_some (s := s.setState .idleClient)
    h.fits (inState_setState hstate) hsend
  exact awaited_of_not_sendable hfits hnone

/-- **One step** keeps the invariant, if a thread that loses the election is covered. -/
theorem Awaited.step [DecidableEq θ] (h : s.Awaited) {l : SendStep θ} (hcovered : s.Covered l)
    (hstep : s.step l = some s') : s'.Awaited := by
  cases l with
  | call t packet =>
    rw [SendSystem.step] at hstep
    split at hstep
    · contradiction
    · next hout =>
      obtain rfl := Option.some.inj hstep
      refine h.goto ?_ rfl rfl ?_ ?_
      · exact h.fits
      · exact id
      · intro _ ht
        simp_all [Pledged, WillLock]
  | run t => exact h.run hcovered hstep
  | start =>
    rw [SendSystem.step] at hstep
    split at hstep
    · contradiction
    · obtain rfl := Option.some.inj hstep
      exact awaited_of_inState h.fits rfl (by simp)
  | connected =>
    rw [SendSystem.step] at hstep
    split at hstep
    · next hstate => exact h.becomesIdle hstate hstep
    · contradiction
  | status =>
    rw [SendSystem.step] at hstep
    split at hstep
    · next hstate =>
      obtain ⟨⟨task, items⟩, hack, rfl⟩ := Option.map_eq_some_iff.mp hstep
      obtain ⟨hsub, hbulk⟩ := Task.ackPending_eq_some hack
      have hheader : ({ s with task := task }.setState .waitHttpHeader).InState .waitHttpHeader :=
        inState_setState hstate
      exact awaited_of_inState (h.fits.sublist hbulk hsub) hheader (by simp)
    · contradiction
  | replyEnd =>
    rw [SendSystem.step] at hstep
    split at hstep
    · next hstate => exact h.becomesIdle hstate hstep
    · contradiction
  | sessionEnd =>
    rw [SendSystem.step] at hstep
    split at hstep
    · contradiction
    · obtain rfl := Option.some.inj hstep
      exact awaited_of_no_session h.fits rfl
  | reschedule =>
    rw [SendSystem.step] at hstep
    split at hstep
    · contradiction
    · next hnone =>
      obtain rfl := Option.some.inj hstep
      refine awaited_of_no_session ?_ (by simpa using (not_or.mp hnone).1)
      refine h.fits.sublist ?_ ?_
      · rw [Task.reschedule]
        split <;> rfl
      · rw [Task.reschedule]
        split <;> exact List.Sublist.refl _

/-! ### Runs -/

/-- **No item is stuck** in a run in which every thread that loses the election does so while an
elected one has yet to take the lock of the current session. -/
theorem not_stuck [DecidableEq θ] {bulkMaxSize queueMaxSize : ℕ}
    (h : Transition.Reachable (· = new θ bulkMaxSize queueMaxSize) Covered step s) : ¬ s.Stuck := by
  have hawaited : s.Awaited := by
    refine h.invariant ?_ fun s l s' hs hcovered hstep => hs.step hcovered hstep
    rintro _ rfl
    exact awaited_of_no_session (by simp [Task.Fits, new, Task.new]) rfl
  rintro ⟨hidle, hne, hzero, hout⟩
  obtain ⟨t, ht⟩ := hawaited.pledged ⟨hidle, hne, hzero⟩
  simp [Pledged, WillLock, hout] at ht

instance (s : SendSystem Bool) : (l : SendStep Bool) → Decidable (s.Covered l)
  | .run t => inferInstanceAs (Decidable (s.pc t = .elect → s.restartSending ≠ 0 →
      ∃ t', s.pc t' = .elected ∨ ∃ session ∈ s.session.map Prod.fst, s.pc t' = .lock session))
  | .call _ _ => .isTrue trivial
  | .start => .isTrue trivial
  | .connected => .isTrue trivial
  | .status => .isTrue trivial
  | .replyEnd => .isTrue trivial
  | .sessionEnd => .isTrue trivial
  | .reschedule => .isTrue trivial

/-- Two threads insert an item each; the second one loses the election, and the first one then sends
an item. -/
def coveredLoser : List (SendStep Bool) :=
  [.start, .connected, .call false (.new [65]), .run false, .run false, .run false, .run false,
    .call true (.new [66]), .run true, .run true, .run true, .run false, .run false, .run true]

/-- What a run of two threads shows in the end. -/
def observe (s : SendSystem Bool) : Option SessionState × ℕ × ℕ × SendPc × SendPc :=
  (s.session.map Prod.snd, s.task.mimeq.length, s.task.pending, s.pc false, s.pc true)

theorem not_stuck_coveredLoser :
    ∃ s : SendSystem Bool, Transition.Reachable (· = new Bool 0 100) Covered step s ∧
      s.observe = (some .waitHttpStatus, 2, 1, .out, .out) ∧ ¬ s.Stuck := by
  have hobserve : (coveredLoser.foldlM (fun s l => if Covered s l then step s l else none)
      (new Bool 0 100)).map observe = some (some .waitHttpStatus, 2, 1, .out, .out) := by
    decide
  obtain ⟨s, hrun, hs⟩ := Option.map_eq_some_iff.mp hobserve
  have hreach : Transition.Reachable (· = new Bool 0 100) Covered step s :=
    Transition.reachable_of_foldlM (.refl rfl) hrun
  exact ⟨s, hreach, hs, not_stuck hreach⟩

/-- The server replies to the request of the thread elected before this thread gives its place up:
the session is idle again, and the other thread loses the election all the same. -/
def uncoveredLoser : List (SendStep Bool) :=
  [.start, .connected, .call false (.new [65]), .run false, .run false, .run false, .run false,
    .run false, .status, .replyEnd, .call true (.new [66]), .run true, .run true, .run true,
    .run false, .run true]

/-- An item that no thread will send. -/
theorem stuck_uncoveredLoser :
    ¬ ∀ s : SendSystem Bool,
      Transition.Reachable (· = new Bool 0 100) (fun _ _ => True) step s → ¬ s.Stuck := by
  intro h
  have hobserve : (uncoveredLoser.foldlM (fun s l => if True then step s l else none)
      (new Bool 0 100)).map observe = some (some .idleClient, 1, 0, .out, .out) := by
    decide
  obtain ⟨s, hrun, hs⟩ := Option.map_eq_some_iff.mp hobserve
  simp only [observe, Prod.mk.injEq] at hs
  obtain ⟨hidle, hlength, hpending, hfalse, htrue⟩ := hs
  refine h s (Transition.reachable_of_foldlM (.refl rfl) hrun) ⟨hidle, ?_, hpending, ?_⟩
  · intro hnil
    rw [hnil] at hlength
    contradiction
  · intro t
    cases t with
    | false => exact hfalse
    | true => exact htrue

end SendSystem

end ChilopodCaster
