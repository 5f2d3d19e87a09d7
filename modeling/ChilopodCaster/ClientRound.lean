import ChilopodCaster.Client

/-!
# Rounds of a client session

The loop of `ntripcli_readcb` either goes on with a session that its task still has, or is left. It
is left with such a session, or with one that the line callback of the task has taken from it.

## Main definitions

* `Client.Live` — a session that its task has
* `Client.Closing` — a session that left its task, which was notified
* `Client.Idle` — a task all of whose sessions have ended and left it

## Main results

* `Client.Live.exists_loop` — the loop ends
* `Client.Live.closeSession` — the end of a session reaches its task
-/

namespace ChilopodCaster

namespace Ntripcli

open ChunkDecode

/-! ### Sessions -/

namespace NtripState

variable {st : NtripState} {buf rest : List Byte}

/-- What the end of a session depends on. -/
def duties (st : NtripState) : Bool × ℕ × Bool × ℕ × Bool :=
  (st.task, st.endCbs, st.stopped, st.refcnt, st.ownLivesource)

/-- A session that has ended and left its task: `end_cb` was called for it once, unless
`ntrip_task_stop` ended it. -/
structure Gone (st : NtripState) : Prop where
  state : st.state = .ntripEnd
  task : st.task = false
  refcnt : st.refcnt = 0
  endCbs : st.endCbs = if st.stopped then 0 else 1

/-- What `ntrip_decref_end` does to a session that has not ended. -/
theorem decrefEnd_eq (h : st.state ≠ .ntripEnd) :
    st.decrefEnd.state = .ntripEnd ∧ st.decrefEnd.task = st.task ∧
      st.decrefEnd.refcnt = st.refcnt - 1 ∧ st.decrefEnd.endCbs = st.endCbs ∧
      st.decrefEnd.stopped = st.stopped := by
  rw [decrefEnd, if_neg h]
  refine ⟨?_, rfl, rfl, rfl, rfl⟩
  change (ntripDecrefEnd _).state = _
  rw [ntripDecrefEnd, if_neg h]
  split <;> rfl

@[simp] theorem duties_setInput (st : NtripState) (rest : List Byte) :
    (st.setInput rest).duties = st.duties := by
  rw [setInput]
  split <;> rfl

@[simp] theorem state_setInput (st : NtripState) (rest : List Byte) :
    (st.setInput rest).state = st.state := by
  rw [setInput]
  split <;> rfl

theorem buffered_setInput (h : st.inputBuf = some buf) (rest : List Byte) :
    buffered (st.setInput rest).toSession + buf.length =
      buffered st.toSession + rest.length := by
  rw [inputBuf] at h
  cases hinput : st.input with
  | rawInput =>
    rw [hinput] at h
    obtain rfl := Option.some.inj h
    simp only [setInput, hinput, buffered]
    omega
  | chunkBuf =>
    rw [hinput] at h
    simp only [setInput, hinput, buffered, h, Option.getD_some]
    omega

end NtripState

namespace Client

variable {F : Type} {s s' s'' : Client F} {env : Env F} {i j n : ℕ} {st : NtripState}
  {buf line rest : List Byte}

/-! ### Reading back what was written -/

@[simp] theorem heap_modifySt_self (s : Client F) (i : ℕ) (f : NtripState → NtripState) :
    (s.modifySt i f).heap i = f (s.heap i) := by
  simp [modifySt, setSt]

theorem heap_modifySt_of_ne (s : Client F) (h : j ≠ i) (f : NtripState → NtripState) :
    (s.modifySt i f).heap j = s.heap j := by
  simp [modifySt, setSt, h]

@[simp] theorem task_modifySt (s : Client F) (i : ℕ) (f : NtripState → NtripState) :
    (s.modifySt i f).task = s.task := rfl

@[simp] theorem next_modifySt (s : Client F) (i : ℕ) (f : NtripState → NtripState) :
    (s.modifySt i f).next = s.next := rfl

/-! ### What a callback keeps -/

/-- What a callback of a session keeps as long as it does not end it: no other session is changed,
and the task still has it. -/
structure Same (i : ℕ) (s s' : Client F) : Prop where
  next : s'.next = s.next
  others : ∀ j ≠ i, s'.heap j = s.heap j
  duties : (s'.heap i).duties = (s.heap i).duties
  state : (s.heap i).state ≠ .ntripEnd → (s'.heap i).state ≠ .ntripEnd
  st : s'.task.st = s.task.st
  running : s'.task.state = s.task.state
  ev : s'.task.ev = s.task.ev
  refreshDelay : s'.task.refreshDelay = s.task.refreshDelay
  owner : s'.task.owner = s.task.owner

/-- The bytes that a session holds. -/
def held (i : ℕ) (s : Client F) : ℕ := buffered (s.heap i).toSession

/-- The same, when the session holds no more bytes than it did. -/
structure Kept (i : ℕ) (s s' : Client F) : Prop extends Same i s s' where
  held : held i s' ≤ held i s

theorem Same.refl (i : ℕ) (s : Client F) : Same i s s :=
  ⟨rfl, fun _ _ => rfl, rfl, id, rfl, rfl, rfl, rfl, rfl⟩

theorem Kept.refl (i : ℕ) (s : Client F) : Kept i s s := ⟨.refl i s, Nat.le_refl _⟩

theorem Kept.trans (h : Kept i s s') (h' : Kept i s' s'') : Kept i s s'' where
  next := h'.next.trans h.next
  others := fun j hj => (h'.others j hj).trans (h.others j hj)
  duties := h'.duties.trans h.duties
  state := fun hs => h'.state (h.state hs)
  st := h'.st.trans h.st
  running := h'.running.trans h.running
  ev := h'.ev.trans h.ev
  refreshDelay := h'.refreshDelay.trans h.refreshDelay
  owner := h'.owner.trans h.owner
  held := Nat.le_trans h'.held h.held

theorem same_modifySt (s : Client F) (i : ℕ) {f : NtripState → NtripState}
    (hduties : (f (s.heap i)).duties = (s.heap i).duties)
    (hstate : (f (s.heap i)).state = (s.heap i).state ∨ (f (s.heap i)).state ≠ .ntripEnd) :
    Same i s (s.modifySt i f) where
  next := rfl
  others := fun j hj => heap_modifySt_of_ne s hj f
  duties := by rwa [heap_modifySt_self]
  state := by
    rw [heap_modifySt_self]
    intro hs
    rcases hstate with hstate | hstate
    · rwa [hstate]
    · exact hstate
  st := rfl
  running := rfl
  ev := rfl
  refreshDelay := rfl
  owner := rfl

/-- A change of the session. -/
theorem kept_modifySt (s : Client F) (i : ℕ) {f : NtripState → NtripState}
    (hduties : (f (s.heap i)).duties = (s.heap i).duties)
    (hstate : (f (s.heap i)).state = (s.heap i).state ∨ (f (s.heap i)).state ≠ .ntripEnd)
    (hheld : buffered (f (s.heap i)).toSession ≤ buffered (s.heap i).toSession) :
    Kept i s (s.modifySt i f) :=
  ⟨same_modifySt s i hduties hstate, by rwa [Client.held, heap_modifySt_self]⟩

theorem kept_setState (s : Client F) (i : ℕ) {state : SessionState} (h : state ≠ .ntripEnd) :
    Kept i s (s.setState i state) :=
  kept_modifySt s i rfl (.inr h) (Nat.le_refl _)

/-- A change of the queue. -/
theorem kept_setQueue (i : ℕ) {s : Client F} {queue : Task} (h : queue.state = s.task.state) :
    Kept i s (s.setQueue queue) :=
  ⟨⟨rfl, fun _ _ => rfl, rfl, id, rfl, h, rfl, rfl, rfl⟩, Nat.le_refl _⟩

/-! ### The queue -/

/-- A request leaves the session in a state where the next round reads. -/
theorem sendNextRequest_kept (h : s.sendNextRequest i = some s') :
    Kept i s s' ∧ rank (s'.heap i).state = 0 := by
  rw [sendNextRequest] at h
  split at h
  · contradiction
  · next hidle =>
    have hidle : (s.heap i).state = .idleClient := by simpa using hidle
    obtain ⟨r, hr, rfl⟩ := Option.map_eq_some_iff.mp h
    have hqueue : Kept i s (s.setQueue r.1) := kept_setQueue i (Task.state_sendNextRequest hr)
    cases r.2 with
    | none =>
      refine ⟨hqueue, ?_⟩
      change rank (s.heap i).state = 0
      rw [hidle]
      rfl
    | some request =>
      refine ⟨hqueue.trans (kept_setState _ i (by simp)), ?_⟩
      simp [setState, rank]

theorem insertItem_kept (i : ℕ) {queue : Task} (h : queue.state = s.task.state) (m : MimeContent) :
    Kept i s (s.insertItem queue m) := by
  refine ⟨⟨rfl, fun _ _ => rfl, rfl, id, rfl, ?_, rfl, rfl, rfl⟩, Nat.le_refl _⟩
  change (if _ then _ else _ : Task).state = _
  split
  · exact h
  · exact h

theorem sendIfIdle_kept (hst : ∀ j, s.task.st = some j → j = i) (h : s.sendIfIdle = some s') :
    Kept i s s' := by
  rw [sendIfIdle] at h
  split at h
  · rw [← Option.some.inj h]
    exact .refl i s
  · next j hj =>
    obtain rfl := hst j hj
    split at h
    · exact (sendNextRequest_kept h).1
    · rw [← Option.some.inj h]
      exact .refl j s

/-- The item goes to the queue, and an idle session sends it. -/
theorem taskQueue_kept {packet : Packet} (hst : ∀ j, s.task.st = some j → j = i)
    (h : s.taskQueue packet = some s') : Kept i s s' := by
  rw [taskQueue] at h
  split at h
  · rw [← Option.some.inj h]
    exact .refl i s
  · obtain ⟨queue, hqueue, h⟩ := Option.bind_eq_some_iff.mp h
    have hstate : queue.state = s.task.state := by
      split at hqueue
      · obtain ⟨r, hr, rfl⟩ := Option.map_eq_some_iff.mp hqueue
        exact Task.state_drainQueue hr
      · rw [← Option.some.inj hqueue]
    exact (insertItem_kept i hstate _).trans (sendIfIdle_kept hst h)

theorem ackPending_kept (i : ℕ) (h : s.ackPending = some s') : Kept i s s' := by
  obtain ⟨r, hr, rfl⟩ := Option.map_eq_some_iff.mp h
  exact kept_setQueue i (Task.state_ackPending hr)

/-! ### Live sessions -/

/-- The sessions other than one are gone. -/
def OthersGone (i : ℕ) (s : Client F) : Prop := ∀ j < s.next, j ≠ i → (s.heap j).Gone

/-- The session of a running task. -/
structure Linked (i : ℕ) (s : Client F) : Prop where
  lt : i < s.next
  state : (s.heap i).state ≠ .ntripEnd
  duties : ∃ own, (s.heap i).duties = (true, 0, false, 2, own)
  st : s.task.st = some i
  running : s.task.state = .taskRunning
  ev : s.task.ev = false
  others : OthersGone i s

/-- The same, with what the owner of the task relies on. -/
structure Live (i : ℕ) (s : Client F) : Prop extends Linked i s where
  own : ∀ mountpoint persistent, s.task.owner = .sourceFetcher mountpoint persistent →
    (s.heap i).ownLivesource = true
  sourcetable : ∀ new args, s.task.owner = .sourcetableFetcher new args →
    args.sourcetable.isSome = true

/-- A task that was started is running, or it was stopped and nothing is scheduled. -/
def Started (task : ClientTask F) : Prop :=
  task.state = .taskRunning ∨ task.state = .taskEnd ∧ task.ev = false

/-- A session that has left its task, with its references and the calls of `end_cb` for it. -/
structure Cleared (refcnt endCbs : ℕ) (i : ℕ) (s : Client F) : Prop where
  lt : i < s.next
  state : (s.heap i).state ≠ .ntripEnd
  task : (s.heap i).task = false
  stopped : (s.heap i).stopped = false
  refcnt : (s.heap i).refcnt = refcnt
  endCbs : (s.heap i).endCbs = endCbs
  st : s.task.st = none
  started : Started s.task
  others : OthersGone i s

/-- A task without a session that is running and periodic is scheduled, and one that is not running
is not. -/
structure Rested (task : ClientTask F) : Prop where
  scheduled : task.refreshDelay ≠ 0 → task.state = .taskRunning → task.ev = true
  unscheduled : task.state ≠ .taskRunning → task.ev = false

/-- A session about to end, whose task was notified. -/
structure Closing (i : ℕ) (s : Client F) : Prop extends Cleared 1 1 i s where
  rested : Rested s.task

/-- A task without a session. -/
structure Idle (s : Client F) : Prop where
  st : s.task.st = none
  rested : Rested s.task
  gone : ∀ j < s.next, (s.heap j).Gone

theorem Same.othersGone (h : Same i s s') (ho : OthersGone i s) : OthersGone i s' := by
  intro j hj hne
  rw [h.others j hne]
  exact ho j (h.next ▸ hj) hne

theorem Linked.task (h : Linked i s) : (s.heap i).task = true := by
  obtain ⟨own, hown⟩ := h.duties
  exact congrArg Prod.fst hown

theorem Live.same (h : Live i s) (hk : Same i s s') : Live i s' where
  lt := hk.next ▸ h.lt
  state := hk.state h.state
  duties := hk.duties ▸ h.duties
  st := hk.st.trans h.st
  running := hk.running.trans h.running
  ev := hk.ev.trans h.ev
  others := hk.othersGone h.others
  own := by
    intro mountpoint persistent howner
    have hduties := hk.duties
    simp only [NtripState.duties, Prod.mk.injEq] at hduties
    rw [hduties.2.2.2.2]
    exact h.own mountpoint persistent (hk.owner ▸ howner)
  sourcetable := by
    intro new args howner
    exact h.sourcetable new args (hk.owner ▸ howner)

theorem Live.kept (h : Live i s) (hk : Kept i s s') : Live i s' := h.same hk.toSame

/-- A status is passed to the task. -/
theorem statusCb_kept {status : BitVec 32} (hl : Live i s)
    (h : s.statusCb env i status = some s') : Kept i s s' := by
  rw [statusCb, if_pos hl.task, hl.st] at h
  split at h
  · rw [Option.bind_some] at h
    obtain ⟨s₁, h₁, h⟩ := Option.bind_eq_some_iff.mp h
    have hack := ackPending_kept i h₁
    split at h
    · exact hack.trans (taskQueue_kept (by simp [hack.st, hl.st]) h)
    · rwa [← Option.some.inj h]
  · dsimp only [Option.bind_some] at h
    have hset : Kept i s (s.modifySt i fun st => { st with statusCode := 200 }) :=
      kept_modifySt s i rfl (.inl rfl) (Nat.le_refl _)
    split at h
    · split at h
      · exact hset.trans (ackPending_kept i h)
      · rwa [← Option.some.inj h]
    · split at h
      · exact ackPending_kept i h
      · rw [← Option.some.inj h]
        exact .refl i s
  · rw [← Option.some.inj h]
    exact .refl i s

/-! ### What a round reads -/

/-- A read of the input. -/
theorem kept_setInput {f : NtripState → NtripState} (hbuf : (s.heap i).inputBuf = some buf)
    (hlen : rest.length ≤ buf.length)
    (hduties : (f (s.heap i)).duties = ((s.heap i).setInput rest).duties)
    (hsession : (f (s.heap i)).toSession =
      { ((s.heap i).setInput rest).toSession with
        receivedBytes := (f (s.heap i)).receivedBytes }) :
    Kept i s (s.modifySt i f) ∧
      held i (s.modifySt i f) + buf.length = held i s + rest.length ∧
      ((s.modifySt i f).heap i).state = (s.heap i).state := by
  have hbuffered : buffered (f (s.heap i)).toSession =
      buffered ((s.heap i).setInput rest).toSession := by
    rw [hsession]
    rfl
  have hheld := NtripState.buffered_setInput hbuf rest
  have hstate : (f (s.heap i)).state = (s.heap i).state :=
    (congrArg Session.state hsession).trans (NtripState.state_setInput _ rest)
  refine ⟨kept_modifySt s i ?_ (.inl hstate) ?_, ?_, ?_⟩
  · rw [hduties, NtripState.duties_setInput]
  · omega
  · rw [held, heap_modifySt_self, held, hbuffered, hheld]
  · rw [heap_modifySt_self, hstate]

theorem kept_takeLine (hbuf : (s.heap i).inputBuf = some buf)
    (hread : evbufferReadlnCrlf buf = some (line, rest)) :
    Kept i s (s.modifySt i fun st => st.takeLine line rest) ∧
      held i (s.modifySt i fun st => st.takeLine line rest) < held i s ∧
      ((s.modifySt i fun st => st.takeLine line rest).heap i).state = (s.heap i).state := by
  have hlen := length_of_readlnCrlf hread
  obtain ⟨hkept, hheld, hstate⟩ := kept_setInput (f := fun st => st.takeLine line rest) hbuf
    (Nat.le_of_lt hlen) rfl rfl
  exact ⟨hkept, by omega, hstate⟩

theorem rank_le_one (state : SessionState) : rank state ≤ 1 := by
  cases state <;> decide

theorem rounds_eq (s : Client F) (i : ℕ) :
    rounds (s.heap i) = 2 * held i s + rank (s.heap i).state := rfl

/-- What a round comes to: a live session with fewer rounds to come, or one that may be left. -/
def Good (i n : ℕ) : Outcome F → Prop
  | .inl s => Live i s ∧ rounds (s.heap i) < n
  | .inr none => True
  | .inr (some (s, fin)) => Live i s ∨ fin = true ∧ Closing i s

theorem good_leave (h : Live i s) (fin : Bool) : Good i n (leave s fin) := .inl h

theorem Live.good (h : Live i s) (hk : Kept i s s')
    (hn : 2 * held i s + rank (s'.heap i).state < n) : Good i n (.inl s' : Outcome F) := by
  have hheld : held i s' ≤ held i s := hk.held
  refine ⟨h.kept hk, ?_⟩
  rw [rounds_eq]
  omega

theorem Live.good_setState (h : Live i s) {state : SessionState} (hstate : state ≠ .ntripEnd)
    (hn : 2 * held i s + rank state < n) : Good i n (.inl (s.setState i state) : Outcome F) := by
  refine h.good (kept_setState s i hstate) ?_
  rwa [setState, heap_modifySt_self]

theorem Live.good_replyOver (h : Live i s) (hn : 2 * held i s < n) :
    Good i n (s.replyOver i) := by
  rw [replyOver]
  split
  · have hidle : Kept i s (s.setState i .idleClient) := kept_setState s i (by simp)
    dsimp only
    split
    · cases hsend : (s.setState i .idleClient).sendNextRequest i with
      | none => trivial
      | some s' =>
        obtain ⟨hsent, hrank⟩ := sendNextRequest_kept hsend
        exact h.good (hidle.trans hsent) (by rwa [hrank])
    · exact h.good_setState (by simp) hn
  · exact good_leave h true

theorem Live.good_afterHeaders (h : Live i s) (hn : 2 * held i s + 1 < n) :
    Good i n (s.afterHeaders i) := by
  have hset : ∀ state, state ≠ SessionState.ntripEnd →
      Good i n (.inl (s.setState i state) : Outcome F) := by
    intro state hstate
    have hrank := rank_le_one state
    exact h.good_setState hstate (by omega)
  rw [afterHeaders]
  split
  · exact hset _ (by simp)
  · split
    · exact hset _ (by simp)
    · split
      · exact hset _ (by simp)
      · split
        · exact hset _ (by simp)
        · exact h.good_replyOver (by omega)

theorem Live.good_endHeaders (h : Live i s) (hn : 2 * held i s + 1 < n) :
    Good i n (s.endHeaders i) := by
  rw [endHeaders]
  split
  · cases hinit : ntripChunkDecodeInit (s.heap i).toSession with
    | none => trivial
    | some r =>
      have hheld := ntripChunkDecodeInit_buffered hinit
      have hkept : Kept i s (s.modifySt i fun st => { st with toSession := r.2 }) :=
        kept_modifySt s i rfl (.inr (state_ntripChunkDecodeInit hinit h.state)) hheld
      have hle : held i (s.modifySt i fun st => { st with toSession := r.2 }) ≤ held i s :=
        hkept.held
      exact (h.kept hkept).good_afterHeaders (by omega)
  · exact h.good_afterHeaders hn

theorem Live.good_setHeader (h : Live i s) (hrank : rank (s.heap i).state = 0)
    (hn : 2 * held i s < n) (key value : CString) : Good i n (s.setHeader env i key value) := by
  have hset : ∀ f : NtripState → NtripState, (f (s.heap i)).duties = (s.heap i).duties →
      (f (s.heap i)).state = (s.heap i).state →
      buffered (f (s.heap i)).toSession = buffered (s.heap i).toSession →
      Good i n (.inl (s.modifySt i f) : Outcome F) := by
    intro f hduties hstate hheld
    refine h.good (kept_modifySt s i hduties (.inl hstate) (Nat.le_of_eq hheld)) ?_
    rw [heap_modifySt_self, hstate, hrank]
    exact hn
  have hself : Good i n (.inl s : Outcome F) := h.good (.refl i s) (by rwa [hrank])
  rw [setHeader]
  split
  · split
    · exact hset _ rfl rfl rfl
    · exact hself
  · split
    · split
      · exact hset _ rfl rfl rfl
      · exact hself
    · split
      · cases sscanfLu value with
        | none => exact hself
        | some contentLength =>
          dsimp only
          split
          · exact good_leave h true
          · exact hset _ rfl rfl rfl
      · split
        · exact hset _ rfl rfl rfl
        · exact hself

theorem Live.good_headerLine (h : Live i s) (hrank : rank (s.heap i).state = 0)
    (hn : 2 * held i s + 1 < n) (line : List Byte) : Good i n (s.headerLine env i line) := by
  rw [headerLine]
  split
  · exact h.good_endHeaders hn
  · cases parseHeader (toCString line) with
    | none => exact good_leave h true
    | some kv => exact h.good_setHeader hrank (by omega) kv.1 kv.2

theorem Live.good_gotStatus (h : Live i s) (hn : 2 * held i s < n) (icy : Bool)
    (status : BitVec 32) : Good i n (s.gotStatus env i icy status) := by
  rw [gotStatus]
  have hcode := kept_modifySt s i (f := fun st => { st with statusCode := status.truncate 16 })
    rfl (.inl rfl) (Nat.le_refl _)
  generalize s.modifySt i (fun st => { st with statusCode := status.truncate 16 }) = s₁ at hcode ⊢
  have hregister : Kept i s₁ (if icy ∧ (s₁.heap i).mountpoint = [] ∧ status = 200 then
      s₁.setState i .registerSource else s₁) := by
    split
    · exact kept_setState s₁ i (by simp)
    · exact .refl i s₁
  generalize (if icy ∧ (s₁.heap i).mountpoint = [] ∧ status = 200 then
      s₁.setState i .registerSource else s₁) = s₂ at hregister ⊢
  have hk₂ := hcode.trans hregister
  cases hcb : s₂.statusCb env i status with
  | none => trivial
  | some s₃ =>
    have hk₃ := hk₂.trans (statusCb_kept (h.kept hk₂) hcb)
    dsimp only
    split
    · refine h.good (hk₃.trans (kept_setState s₃ i (by simp))) ?_
      rw [setState, heap_modifySt_self]
      exact hn
    · exact good_leave (h.kept hk₃) true

theorem Live.good_statusLine (h : Live i s) (hn : 2 * held i s < n) (line : List Byte) :
    Good i n (s.statusLine env i line) := by
  rw [statusLine]
  generalize (splitArgs (toCString line)).take 3 = args
  have hargs := kept_modifySt s i (f := fun st => { st with httpArgs := args })
    rfl (.inl rfl) (Nat.le_refl _)
  have h₁ := h.kept hargs
  have hheld : held i (s.modifySt i fun st => { st with httpArgs := args }) ≤ held i s :=
    hargs.held
  split
  · exact good_leave h₁ true
  · split
    · split
      · exact good_leave h₁ true
      · split
        · exact good_leave h₁ true
        · exact h₁.good_gotStatus (by omega) _ _
    · exact good_leave h₁ true

/-- A line is read. -/
theorem Live.good_readLine (h : Live i s) {k : Client F → List Byte → Outcome F}
    (hk : ∀ s' line, Live i s' → held i s' < held i s → (s'.heap i).state = (s.heap i).state →
      Good i n (k s' line)) : Good i n (s.readLine env i k) := by
  rw [readLine]
  cases hbuf : (s.heap i).inputBuf with
  | none => trivial
  | some buf =>
    dsimp only
    cases hread : evbufferReadlnCrlf buf with
    | none => exact good_leave h _
    | some lr =>
      have hline : evbufferReadlnCrlf buf = some (lr.1, lr.2) := hread
      obtain ⟨hkept, hlt, hstate⟩ := kept_takeLine hbuf hline
      dsimp only
      split
      · exact good_leave (h.kept hkept) true
      · exact hk _ lr.1 (h.kept hkept) hlt hstate

/-! ### The end of a session -/

theorem Cleared.modifySt {r k r' k' : ℕ} (h : Cleared r k i s) {f : NtripState → NtripState}
    (hstate : (f (s.heap i)).state = (s.heap i).state)
    (htask : (f (s.heap i)).task = false)
    (hstopped : (f (s.heap i)).stopped = (s.heap i).stopped)
    (hrefcnt : (f (s.heap i)).refcnt = r') (hendCbs : (f (s.heap i)).endCbs = k') :
    Cleared r' k' i (s.modifySt i f) where
  lt := h.lt
  state := by
    rw [heap_modifySt_self, hstate]
    exact h.state
  task := by rw [heap_modifySt_self, htask]
  stopped := by rw [heap_modifySt_self, hstopped, h.stopped]
  refcnt := by rw [heap_modifySt_self, hrefcnt]
  endCbs := by rw [heap_modifySt_self, hendCbs]
  st := h.st
  started := h.started
  others := by
    intro j hj hne
    rw [heap_modifySt_of_ne s hne]
    exact h.others j hj hne

/-- The task alone is changed. -/
theorem Cleared.setTask {r k : ℕ} (h : Cleared r k i s) {task : ClientTask F}
    (hst : task.st = none) (hstarted : Started task) :
    Cleared r k i { s with task := task } :=
  ⟨h.lt, h.state, h.task, h.stopped, h.refcnt, h.endCbs, hst, hstarted, h.others⟩

theorem Cleared.kept {r k : ℕ} (h : Cleared r k i s) (hk : Kept i s s') : Cleared r k i s' := by
  have hduties := hk.duties
  simp only [NtripState.duties, Prod.mk.injEq] at hduties
  obtain ⟨htask, hendCbs, hstopped, hrefcnt, -⟩ := hduties
  refine ⟨hk.next ▸ h.lt, hk.state h.state, htask.trans h.task, hstopped.trans h.stopped,
    hrefcnt.trans h.refcnt, hendCbs.trans h.endCbs, hk.st.trans h.st, ?_, hk.othersGone h.others⟩
  rw [Started, hk.running, hk.ev]
  exact h.started

theorem Linked.setOwner (h : Linked i s) (owner : TaskOwner F) : Linked i (s.setOwner owner) :=
  ⟨h.lt, h.state, h.duties, h.st, h.running, h.ev, h.others⟩

theorem Linked.clearGetSt (h : Linked i s) : Cleared 2 0 i s.clearGetSt := by
  obtain ⟨own, hduties⟩ := h.duties
  simp only [NtripState.duties, Prod.mk.injEq] at hduties
  obtain ⟨-, hendCbs, hstopped, hrefcnt, -⟩ := hduties
  rw [Client.clearGetSt, h.st]
  refine ⟨h.lt, ?_, ?_, ?_, ?_, ?_, rfl, .inl h.running, ?_⟩
  · simpa using h.state
  · simp
  · simpa using hstopped
  · simpa using hrefcnt
  · simpa using hendCbs
  · intro j hj hne
    rw [heap_modifySt_of_ne _ hne]
    exact h.others j hj hne

theorem Cleared.decref {r k : ℕ} (h : Cleared (r + 1) k i s) :
    Cleared r k i (s.modifySt i NtripState.decref) :=
  h.modifySt rfl h.task rfl (by simp [NtripState.decref, h.refcnt]) h.endCbs

theorem Linked.clearSt (h : Linked i s) : Cleared 1 0 i s.clearSt := by
  rw [Client.clearSt, h.st]
  exact h.clearGetSt.decref

theorem Cleared.reschedule {r k : ℕ} (h : Cleared r k i s) : Cleared r k i s.reschedule := by
  rw [Client.reschedule]
  split
  · exact h
  · next hend =>
    refine h.setTask h.st (.inl ?_)
    have hrunning : s.task.state = .taskRunning := by
      rcases h.started with hrunning | ⟨hstate, -⟩
      · exact hrunning
      · exact absurd hstate hend
    change (Task.reschedule _).state = _
    rwa [Task.reschedule, if_neg hend]

/-- A task that is rescheduled is scheduled, if it is periodic. -/
theorem rested_reschedule (h : Started s.task) : Rested s.reschedule.task := by
  rw [reschedule]
  rcases h with hrunning | ⟨hend, hev⟩
  · rw [if_neg (by simp [hrunning])]
    refine ⟨?_, ?_⟩
    · intro hdelay _
      simp [show s.task.refreshDelay ≠ 0 from hdelay]
    · intro hne
      refine absurd ?_ hne
      change (Task.reschedule _).state = _
      rwa [Task.reschedule, if_neg (by simp [hrunning])]
  · rw [if_pos hend]
    exact ⟨by simp [hend], fun _ => hev⟩

theorem rested_of_taskEnd {task : ClientTask F} (h : task.state = .taskEnd)
    (hev : task.ev = false) : Rested task :=
  ⟨by simp [h], fun _ => hev⟩

/-- A task that is stopped has ended, and no start is scheduled. -/
theorem task_taskStop (h : Started s.task) :
    s.taskStop.task.state = .taskEnd ∧ s.taskStop.task.ev = false := by
  rw [taskStop]
  split
  · next hend =>
    rcases h with hrunning | ⟨-, hev⟩
    · rw [hend] at hrunning
      contradiction
    · exact ⟨hend, hev⟩
  · next hstate =>
    have hstop : s.task.toTask.stop.state = .taskEnd := by
      rw [Task.stop, if_neg hstate]
    rw [stopSt]
    split
    · exact ⟨hstop, rfl⟩
    · rw [clearGetSt]
      split
      · exact ⟨hstop, rfl⟩
      · exact ⟨hstop, rfl⟩

theorem rested_freeTask (h : Started s.task) : Rested s.freeTask.task :=
  rested_of_taskEnd (task_taskStop h).1 (task_taskStop h).2

/-- Without a session, only the task is stopped. -/
theorem Cleared.freeTask {r k : ℕ} (h : Cleared r k i s) : Cleared r k i s.freeTask := by
  have hstop := task_taskStop h.started
  have hcleared : Cleared r k i s.taskStop := by
    rw [taskStop] at hstop ⊢
    split at hstop
    · next hend =>
      rw [if_pos hend]
      exact h
    · next hend =>
      rw [if_neg hend]
      rw [stopSt] at hstop ⊢
      dsimp only at hstop ⊢
      rw [h.st] at hstop ⊢
      exact h.setTask rfl (.inr hstop)
  exact hcleared.setTask hcleared.st hcleared.started

theorem Cleared.notified {r : ℕ} (h : Cleared r 0 i s) :
    Cleared r 1 i (s.modifySt i fun st => { st with task := false, endCbs := st.endCbs + 1 }) :=
  h.modifySt rfl rfl rfl h.refcnt (by simp [h.endCbs])

/-- `end_cb` parts the session from its task, which is scheduled. -/
theorem Live.endCb (h : Live i s) (he : s.endCb env = some s') :
    Cleared 1 0 i s' ∧ Rested s'.task := by
  rw [Client.endCb] at he
  split at he
  · next new args _ =>
    rw [← Option.some.inj he]
    have hcleared := (h.setOwner (.sourcetableFetcher new (args.sourcetableEndCb false))).clearSt
    exact ⟨hcleared.reschedule, rested_reschedule hcleared.started⟩
  · obtain ⟨s₁, h₁, rfl⟩ := Option.map_eq_some_iff.mp he
    have hcleared := h.clearSt
    have hqueued := hcleared.kept (taskQueue_kept (by simp [hcleared.st]) h₁)
    exact ⟨hqueued.reschedule, rested_reschedule hqueued.started⟩
  · rw [← Option.some.inj he]
    exact ⟨h.clearSt.reschedule, rested_reschedule h.clearSt.started⟩
  · next mountpoint persistent howner =>
    have hcleared := h.clearGetSt
    rw [h.st] at he
    dsimp only at he
    rw [if_pos (h.own mountpoint persistent howner)] at he
    rw [← Option.some.inj he]
    cases persistent with
    | true => exact ⟨hcleared.reschedule.decref, rested_reschedule hcleared.started⟩
    | false =>
      have hown := hcleared.modifySt (f := fun st => { st with ownLivesource := false }) rfl
        hcleared.task rfl hcleared.refcnt hcleared.endCbs
      exact ⟨hown.freeTask.decref, rested_freeTask hown.started⟩

theorem Live.notifyClose (h : Live i s) (hn : s.notifyClose env i = some s') : Closing i s' := by
  rw [Client.notifyClose, if_pos h.task] at hn
  obtain ⟨s₁, h₁, rfl⟩ := Option.map_eq_some_iff.mp hn
  obtain ⟨hcleared, hrested⟩ := h.endCb h₁
  exact ⟨hcleared.notified, hrested⟩

/-- A session that left its task is not notified again. -/
theorem Closing.notifyClose (h : Closing i s) (hn : s.notifyClose env i = some s') : s' = s := by
  rw [Client.notifyClose, if_neg (by simp [h.task])] at hn
  exact (Option.some.inj hn).symm

theorem Closing.decrefEnd (h : Closing i s) : Idle (s.modifySt i NtripState.decrefEnd) where
  st := h.st
  rested := h.rested
  gone := by
    intro j hj
    by_cases hne : j = i
    · subst hne
      obtain ⟨hstate, htask, hrefcnt, hendCbs, hstopped⟩ := NtripState.decrefEnd_eq h.state
      rw [heap_modifySt_self]
      refine ⟨hstate, htask.trans h.task, by rw [hrefcnt, h.refcnt], ?_⟩
      rw [hendCbs, hstopped, h.endCbs, h.stopped]
      rfl
    · rw [heap_modifySt_of_ne s hne]
      exact h.others j hj hne

theorem Closing.closeSession (h : Closing i s) (hc : s.closeSession env i = some s') : Idle s' := by
  obtain ⟨s₁, h₁, hs'⟩ := Option.bind_eq_some_iff.mp hc
  obtain rfl := h.notifyClose h₁
  split at hs'
  · contradiction
  · rw [← Option.some.inj hs']
    exact h.decrefEnd

theorem Live.closeSession (h : Live i s) (hc : s.closeSession env i = some s') : Idle s' := by
  obtain ⟨s₁, h₁, hc⟩ := Option.bind_eq_some_iff.mp hc
  split at hc
  · contradiction
  · rw [← Option.some.inj hc]
    exact (h.notifyClose h₁).decrefEnd

/-! ### The line callback -/

/-- A fetcher with a table keeps it, or ends the session and returns 1. -/
theorem sourcetableLineCb_cases {args : SourcetableFetchArgs F} (scanFloat : CString → Option F)
    (text : Json → CString) (now : Timeval) (line : CString)
    (h : args.sourcetable.isSome = true) :
    ((args.sourcetableLineCb scanFloat text now line).1.ended = args.ended ∧
        (args.sourcetableLineCb scanFloat text now line).2 = false ∧
        (args.sourcetableLineCb scanFloat text now line).1.sourcetable.isSome = true) ∨
      ((args.sourcetableLineCb scanFloat text now line).1.ended ≠ args.ended ∧
        (args.sourcetableLineCb scanFloat text now line).2 = true) := by
  obtain ⟨t, ht⟩ := Option.isSome_iff_exists.mp h
  rw [SourcetableFetchArgs.sourcetableLineCb, ht]
  dsimp only
  split
  · right
    simp [SourcetableFetchArgs.sourcetableEndCb]
  · split
    · left
      exact ⟨rfl, rfl, h⟩
    · split
      · right
        simp [SourcetableFetchArgs.sourcetableEndCb]
      · left
        simp

theorem Live.lineCb (h : Live i s) {line : CString} {r : Client F × Bool}
    (hr : s.lineCb env i line = some r) :
    r.2 = false ∧ Live i r.1 ∧ r.1.heap = s.heap ∨ r.2 = true ∧ Closing i r.1 := by
  rw [Client.lineCb] at hr
  split at hr
  · next new args howner =>
    rcases sourcetableLineCb_cases env.scanFloat env.text env.timeOfDay line
      (h.sourcetable new args howner) with ⟨hended, hret, hsome⟩ | ⟨hended, hret⟩
    · rw [if_pos hended] at hr
      rw [← Option.some.inj hr]
      refine .inl ⟨hret, ⟨h.setOwner _, ?_, ?_⟩, rfl⟩
      · intro mountpoint persistent heq
        contradiction
      · intro new' args' heq
        obtain ⟨-, rfl⟩ := TaskOwner.sourcetableFetcher.inj heq
        exact hsome
    · rw [if_neg hended] at hr
      rw [← Option.some.inj hr]
      have hcleared := (h.setOwner (.sourcetableFetcher new
        (args.sourcetableLineCb env.scanFloat env.text env.timeOfDay line).1)).clearSt
      have hrescheduled := hcleared.reschedule
      have hnotified := hrescheduled.modifySt (f := fun st => { st with endCbs := st.endCbs + 1 })
        rfl hrescheduled.task rfl hrescheduled.refcnt (congrArg (· + 1) hrescheduled.endCbs)
      exact .inr ⟨hret, hnotified, rested_reschedule hcleared.started⟩
  · contradiction

theorem Live.good_callbackLine (h : Live i s) (hbuf : (s.heap i).inputBuf = some buf)
    (hrank : rank (s.heap i).state = 0) (hn : 2 * held i s ≤ n) :
    Good i n (s.callbackLine env i buf) := by
  rw [callbackLine]
  cases hread : evbufferReadlnCrlf buf with
  | none => exact good_leave h false
  | some lr =>
    obtain ⟨line, rest⟩ := lr
    have hlen := length_of_readlnCrlf hread
    have hset := kept_setInput (i := i) (s := s) (f := fun st =>
      { st.takeLine line rest with receivedBytes := st.receivedBytes + line.length + 2 +
        (line.length + 1) }) hbuf (Nat.le_of_lt hlen) rfl rfl
    dsimp only
    generalize s.modifySt i (fun st : NtripState =>
      { st.takeLine line rest with receivedBytes := st.receivedBytes + line.length + 2 +
        (line.length + 1) }) = s₁ at hset ⊢
    obtain ⟨hkept, hheld, hstate⟩ := hset
    have h₁ := h.kept hkept
    rw [if_pos h₁.task]
    cases hcb : s₁.lineCb env i (toCString line) with
    | none => trivial
    | some r =>
      rcases h₁.lineCb hcb with ⟨hret, hlive, hheap⟩ | ⟨hret, hclosing⟩
      · obtain ⟨s₂, _⟩ := r
        obtain rfl := hret
        refine ⟨hlive, ?_⟩
        rw [show s₂.heap i = s₁.heap i from congrFun hheap i, rounds_eq, hstate, hrank]
        omega
      · obtain ⟨s₂, _⟩ := r
        obtain rfl := hret
        refine .inr ⟨rfl, ?_, hclosing.rested⟩
        exact hclosing.toCleared.modifySt rfl rfl rfl hclosing.refcnt hclosing.endCbs

/-! ### Every round reads -/

theorem kept_takeContent (hbuf : (s.heap i).inputBuf = some buf) (len : ℕ) :
    Kept i s (s.modifySt i fun st => st.takeContent buf len) ∧
      held i (s.modifySt i fun st => st.takeContent buf len) + buf.length =
        held i s + (buf.length - len) := by
  rw [← List.length_drop]
  obtain ⟨hkept, hheld, -⟩ := kept_setInput (i := i) (s := s)
    (f := fun st => st.takeContent buf len) hbuf (by simp) rfl rfl
  exact ⟨hkept, hheld⟩

theorem Live.good_serverContent (h : Live i s) (hbuf : (s.heap i).inputBuf = some buf)
    (hn : 2 * held i s < n) : Good i n (s.serverContent i buf) := by
  rw [serverContent]
  obtain ⟨hkept, -⟩ := kept_takeContent (i := i) (s := s) hbuf
    (min buf.length ((s.heap i).contentLength - (s.heap i).contentDone))
  have hle := hkept.held
  split
  · exact (h.kept hkept).good_replyOver (Nat.lt_of_le_of_lt (Nat.mul_le_mul_left 2 hle) hn)
  · exact good_leave (h.kept hkept) true

theorem Live.good_chunkedContent (h : Live i s) (hbuf : (s.heap i).inputBuf = some buf)
    (hne : buf ≠ []) (hn : 2 * held i s < n) : Good i n (s.chunkedContent i buf) := by
  rw [chunkedContent]
  split
  · exact h.good_replyOver hn
  · obtain ⟨hkept, hheld⟩ := kept_takeContent (i := i) (s := s) hbuf buf.length
    have hpos := List.length_pos_of_ne_nil hne
    have hrank := rank_le_one ((s.modifySt i fun st => st.takeContent buf buf.length).heap i).state
    refine ⟨h.kept hkept, ?_⟩
    rw [rounds_eq]
    omega

theorem Live.good_idleClient (h : Live i s) (hbuf : (s.heap i).inputBuf = some buf) :
    Good i n (s.idleClient i buf) := by
  rw [idleClient]
  have hlen : (buf.drop 64).length ≤ buf.length := by simp
  exact good_leave (h.kept (kept_setInput hbuf hlen rfl rfl).1) true

theorem Live.good_streamGet (h : Live i s) (hbuf : (s.heap i).inputBuf = some buf)
    (hrank : rank (s.heap i).state = 0) (hn : 2 * held i s ≤ n) :
    Good i n (s.streamGet env i buf) := by
  rw [streamGet]
  cases hhandle : Rtcm.rtcmPacketHandle ⟨buf, (s.heap i).receivedBytes, [], none, []⟩ with
  | none => trivial
  | some r =>
    obtain ⟨stream, more⟩ := r
    have hlen : stream.input.length ≤ buf.length := Rtcm.rtcmPacketHandle_length_le hhandle
    have hset := kept_setInput (i := i) (s := s) (f := fun st =>
      { st.setInput stream.input with
        receivedBytes := stream.receivedBytes
        lastUseful := if stream.sent.any env.sendSubscribers then env.time else st.lastUseful })
      hbuf hlen rfl rfl
    dsimp only
    generalize s.modifySt i (fun st : NtripState =>
      { st.setInput stream.input with
        receivedBytes := stream.receivedBytes
        lastUseful := if stream.sent.any env.sendSubscribers then env.time else st.lastUseful }) =
      s₁ at hset ⊢
    obtain ⟨hkept, hheld, hstate⟩ := hset
    split
    · exact good_leave (h.kept hkept) false
    · next hmore =>
      have hlt := Rtcm.rtcmPacketHandle_length hhandle (by
        cases more with
        | true => rfl
        | false => exact absurd (.inr rfl) hmore)
      split
      · exact good_leave (h.kept hkept) true
      · refine ⟨h.kept hkept, ?_⟩
        rw [rounds_eq, hstate, hrank]
        dsimp only at hlt
        omega

theorem Live.clearRequest (h : Live i s) :
    Live i (s.modifySt i NtripState.clearRequest) ∧
      held i (s.modifySt i NtripState.clearRequest) ≤ held i s ∧
      ((s.modifySt i NtripState.clearRequest).heap i).state = (s.heap i).state := by
  have hkept : Kept i s (s.modifySt i NtripState.clearRequest) :=
    kept_modifySt s i rfl (.inl rfl) (by simp [NtripState.clearRequest, buffered])
  exact ⟨h.kept hkept, hkept.held, by simp [NtripState.clearRequest]⟩

/-- **One round.** A live session goes on with fewer rounds to come, or the loop is left. -/
theorem Live.good_round (env : Env F) (h : Live i s) :
    Good i (rounds (s.heap i)) (round env i s) := by
  rw [Client.round]
  split
  · exact good_leave h false
  · cases hbuf : (s.heap i).inputBuf with
    | none => trivial
    | some buf =>
      dsimp only
      split
      · exact good_leave h false
      · next hne =>
        have hrounds := rounds_eq s i
        split
        · next hstate =>
          obtain ⟨hlive, hheld, _⟩ := h.clearRequest
          refine hlive.good_readLine fun s' line hs' hlt _ => hs'.good_statusLine ?_ line
          omega
        · next hstate =>
          refine h.good_readLine fun s' line hs' hlt hstate' => hs'.good_headerLine ?_ ?_ line
          · rw [hstate', hstate]
            rfl
          · omega
        · next hstate =>
          exact h.good_callbackLine hbuf (by rw [hstate]; rfl) (by omega)
        · next hstate =>
          rw [hstate] at hrounds
          exact h.good_serverContent hbuf (by rw [hrounds]; exact Nat.lt_succ_self _)
        · next hstate =>
          rw [hstate] at hrounds
          exact h.good_chunkedContent hbuf hne (by rw [hrounds]; exact Nat.lt_succ_self _)
        · exact h.good_idleClient hbuf
        · next hstate =>
          rw [hstate] at hrounds
          exact h.good_setState (by simp) (by rw [hrounds]; exact Nat.lt_succ_self _)
        · next hstate =>
          exact h.good_streamGet hbuf (by rw [hstate]; rfl) (by omega)
        · exact good_leave h true
        · exact good_leave (h.kept (kept_setState s i (by simp))) true

/-- **The loop ends**, and leaves a live session or one whose task was notified. -/
theorem Live.exists_loop (env : Env F) (h : Live i s) :
    ∃ o, Loop.run (round env i) (rounds (s.heap i) + 1) s = some o ∧
      ∀ r, o = some r → Live i r.1 ∨ r.2 = true ∧ Closing i r.1 := by
  refine Loop.run_total (Live i) (fun s => rounds (s.heap i)) ?_ _ s h (Nat.lt_succ_self _)
  intro s hs
  have hgood := hs.good_round env
  rw [Loop.Round]
  cases hround : round env i s with
  | inl s' =>
    rw [hround] at hgood
    exact hgood
  | inr o =>
    rw [hround] at hgood
    rintro ⟨s', fin⟩ rfl
    exact hgood

end Client

end Ntripcli

end ChilopodCaster
