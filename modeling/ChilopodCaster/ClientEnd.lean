import ChilopodCaster.ChunkFailure
import ChilopodCaster.ClientRound
import ChilopodCaster.Lib.Transition

/-!
# The end of a client session

Whatever ends a client session notifies its task first, except `ntrip_filter_run_input`: when the
chunk decoder fails, the session ends alone. The task still refers to it, and is neither notified
nor started again.

## Main definitions

* `Client.EndReachesTask` — the end of each session has reached its task
* `Client.Decodes` — the condition on a step: a read does not make the decoder fail

## Main results

* `Client.reachable_endReachesTask` — it has in every run whose steps meet the condition, and in no
  state after a step that does not
-/

namespace ChilopodCaster

namespace Ntripcli

open ChunkDecode

namespace Client

variable {F : Type} {s s' s'' : Client F} {env : Env F} {i j n : ℕ} {st : NtripState}
  {buf line rest : List Byte} {threads : Bool}

/-! ### Runs -/

/-- The invariant of the runs in which nothing is refused. -/
def Sound (s : Client F) : Prop := (∃ i, Live i s) ∨ Idle s

/-- The end of a session reaches its task. -/
structure EndReachesTask (s : Client F) : Prop where
  /-- The task no longer refers to a session that has ended. -/
  unreferenced : ∀ i < s.next, (s.heap i).state = .ntripEnd → s.task.st ≠ some i
  /-- `end_cb` was called once for it, unless `ntrip_task_stop` ended it. -/
  notified : ∀ i < s.next, (s.heap i).state = .ntripEnd →
    (s.heap i).endCbs = if (s.heap i).stopped then 0 else 1
  /-- A periodic task that was started and not stopped is running or scheduled. -/
  periodic : s.task.refreshDelay ≠ 0 → s.task.state = .taskRunning →
    (∃ i < s.next, s.task.st = some i ∧ (s.heap i).state ≠ .ntripEnd) ∨ s.task.ev = true

theorem Sound.endReachesTask (h : Sound s) : EndReachesTask s := by
  rcases h with ⟨i, h⟩ | h
  · refine ⟨?_, ?_, fun _ _ => .inl ⟨i, h.lt, h.st, h.state⟩⟩
    · intro j _ hend hst
      obtain rfl := Option.some.inj (h.st.symm.trans hst)
      exact h.state hend
    · intro j hj hend
      by_cases hne : j = i
      · rw [hne] at hend
        exact absurd hend h.state
      · exact (h.others j hj hne).endCbs
  · refine ⟨?_, fun j hj _ => (h.gone j hj).endCbs, ?_⟩
    · intro j _ _ hst
      rw [h.st] at hst
      contradiction
    · exact fun hdelay hrunning => .inr (h.rested.scheduled hdelay hrunning)

/-- Whether a step meets the condition: a read does not find a malformed chunk size first, on a
session that has not ended and whose replies are decoded. -/
def Decodes (s : Client F) : Env F × Event → Prop
  | (_, .read i bytes) =>
    ¬ (i < s.next ∧ (s.heap i).state ≠ .ntripEnd ∧ (s.heap i).inFilter = true ∧
      refuses ((s.heap i).receive bytes).toSession = true)
  | _ => True

instance (s : Client F) : (l : Env F × Event) → Decidable (Decodes s l)
  | (_, .read i bytes) => inferInstanceAs (Decidable (¬ (i < s.next ∧
    (s.heap i).state ≠ .ntripEnd ∧ (s.heap i).inFilter = true ∧
      refuses ((s.heap i).receive bytes).toSession = true)))
  | (_, .event _ _) => .isTrue trivial
  | (_, .drop _) => .isTrue trivial
  | (_, .stop) => .isTrue trivial
  | (_, .timer) => .isTrue trivial
  | (_, .queue _) => .isTrue trivial
  | (_, .start) => .isTrue trivial

/-- The callbacks of a session that is not live are not called. -/
theorem Sound.callback (h : Sound s) {f : Client F → Option (Client F)}
    (hf : Live i s → f s = some s' → Sound s') (hs : callback threads s i f = some s') :
    Sound s' := by
  rw [Client.callback] at hs
  split at hs
  · rwa [← Option.some.inj hs]
  · next hcall =>
    push Not at hcall
    obtain ⟨hlt, hrefcnt, -⟩ := hcall
    have hgone : ∀ {st : NtripState}, st.refcnt ≠ 0 → ¬ st.Gone := fun hne hst => hne hst.refcnt
    rcases h with ⟨j, h⟩ | h
    · by_cases hne : i = j
      · exact hf (hne ▸ h) hs
      · exact absurd (h.others i hlt hne) (hgone hrefcnt)
    · exact absurd (h.gone i hlt) (hgone hrefcnt)

theorem Live.receive (h : Live i s) (bytes : List Byte) :
    Live i (s.modifySt i fun st => st.receive bytes) :=
  h.same (same_modifySt s i rfl (.inl rfl))

/-- The filter of a live session leaves it live, unless it refuses what comes. -/
theorem Live.filterRunInput (h : Live i s)
    (hok : (s.heap i).inFilter = true → refuses (s.heap i).toSession ≠ true)
    {r : NtripState × Bool} (hr : (s.heap i).filterRunInput = some r) :
    Live i (s.setSt i r.1) := by
  have hsession : ∀ session : Session, session.state ≠ .ntripEnd →
      Live i (s.setSt i { s.heap i with toSession := session }) := fun session hstate =>
    h.same (same_modifySt s i (f := fun st => { st with toSession := session }) rfl (.inr hstate))
  rw [NtripState.filterRunInput] at hr
  split at hr
  · next hin =>
    obtain ⟨⟨res, session⟩, hdecode, hr⟩ := Option.map_eq_some_iff.mp hr
    have hstate := state_ntripChunkDecode hdecode h.state
    have hres : res ≠ .bevError := fun hres =>
      hok hin ((ntripChunkDecode_bevError_iff hdecode).mp hres)
    cases res with
    | bevOk =>
      rw [← hr]
      exact hsession session hstate
    | bevNeedMore =>
      rw [← hr]
      exact hsession session hstate
    | bevError => contradiction
  · rw [← Option.some.inj hr]
    exact hsession (s.heap i).toSession h.state

/-- **The read callback** leaves a live session, or one that reached its task. -/
theorem Live.readcb (h : Live i s)
    (hok : (s.heap i).inFilter = true → refuses (s.heap i).toSession ≠ true)
    (hs : s.readcb env i = some s') : Sound s' := by
  obtain ⟨r, hr, hs⟩ := Option.bind_eq_some_iff.mp hs
  have hlive := h.filterRunInput hok hr
  dsimp only at hs
  split at hs
  · obtain ⟨⟨s₁, fin⟩, hloop, hs⟩ := Option.bind_eq_some_iff.mp hs
    obtain ⟨o, hrun, hpost⟩ := hlive.exists_loop env
    rw [loop, hrun, Option.join_some] at hloop
    dsimp only at hs
    rcases hpost _ hloop with hlive₁ | ⟨hfin, hclosing⟩
    · split at hs
      · exact .inr (hlive₁.closeSession hs)
      · rw [← Option.some.inj hs]
        exact .inl ⟨i, hlive₁⟩
    · obtain rfl := hfin
      exact .inr (hclosing.closeSession hs)
  · rw [← Option.some.inj hs]
    exact .inl ⟨i, hlive⟩

theorem Live.eventcb (h : Live i s) {isConnected : Bool}
    (hs : s.eventcb env i isConnected = some s') : Sound s' := by
  rw [Client.eventcb] at hs
  split at hs
  · rw [connected] at hs
    split at hs
    · have hidle : Kept i s (s.setState i .idleClient) := kept_setState s i (by simp)
      exact .inl ⟨i, (h.kept hidle).kept (sendNextRequest_kept hs).1⟩
    · rw [← Option.some.inj hs]
      exact .inl ⟨i, h.kept (kept_setState s i (by simp))⟩
  · exact .inr (h.closeSession hs)

/-- A drop of a session that is gone changes nothing. -/
theorem drop_of_gone (h : (s.heap i).Gone) (hs : s.drop env i = some s') : s' = s := by
  obtain ⟨s₁, h₁, rfl⟩ := Option.map_eq_some_iff.mp hs
  rw [notifyClose, if_neg (by simp [h.task])] at h₁
  obtain rfl := Option.some.inj h₁
  rw [modifySt, NtripState.decrefEnd, if_pos h.state, setSt, Function.update_eq_self]

theorem Sound.drop (h : Sound s) (hlt : i < s.next) (hs : s.drop env i = some s') : Sound s' := by
  have hgone : (s.heap i).Gone → Sound s' := fun hi => drop_of_gone hi hs ▸ h
  rcases h with ⟨j, h⟩ | h
  · by_cases hne : i = j
    · subst hne
      obtain ⟨s₁, h₁, rfl⟩ := Option.map_eq_some_iff.mp hs
      exact .inr (h.notifyClose h₁).decrefEnd
    · exact hgone (h.others i hlt hne)
  · exact hgone (h.gone i hlt)

/-! ### Starts and stops -/

theorem Idle.setOwner (h : Idle s) (owner : TaskOwner F) : Idle (s.setOwner owner) :=
  ⟨h.st, ⟨h.rested.scheduled, h.rested.unscheduled⟩, h.gone⟩

/-- A session that `ntrip_task_stop` ends is gone, without a call of `end_cb`. -/
theorem gone_stopEnd (hstate : st.state ≠ .ntripEnd) (htask : st.task = false)
    (hrefcnt : st.refcnt = 2) (hendCbs : st.endCbs = 0) : st.stopEnd.Gone := by
  obtain ⟨hstate', htask', hrefcnt', hendCbs', -⟩ := NtripState.decrefEnd_eq hstate
  refine ⟨hstate', htask'.trans htask, ?_, ?_⟩
  · change st.decrefEnd.refcnt - 1 = 0
    rw [hrefcnt', hrefcnt]
  · change st.decrefEnd.endCbs =
      if (st.stopped || decide (st.state ≠ .ntripEnd)) = true then 0 else 1
    rw [hendCbs', hendCbs]
    simp [hstate]

theorem Live.taskStop (h : Live i s) : Idle s.taskStop := by
  obtain ⟨hend, hev⟩ := task_taskStop (.inl h.running)
  rw [Client.taskStop, if_neg (by simp [h.running]), stopSt] at hend hev ⊢
  dsimp only at hend hev ⊢
  rw [h.st, clearGetSt] at hend hev ⊢
  refine ⟨rfl, rested_of_taskEnd hend hev, ?_⟩
  intro j hj
  by_cases hne : j = i
  · subst hne
    obtain ⟨own, hduties⟩ := h.duties
    simp only [NtripState.duties, Prod.mk.injEq] at hduties
    obtain ⟨-, hendCbs, -, hrefcnt, -⟩ := hduties
    rw [heap_modifySt_self, heap_modifySt_self]
    exact gone_stopEnd h.state rfl hrefcnt hendCbs
  · rw [heap_modifySt_of_ne _ hne, heap_modifySt_of_ne _ hne]
    exact h.others j hj hne

theorem Idle.taskStop (h : Idle s) : Idle s.taskStop := by
  rw [Client.taskStop]
  split
  · exact h
  · next hend =>
    rw [stopSt]
    dsimp only
    rw [h.st]
    refine ⟨rfl, rested_of_taskEnd ?_ rfl, h.gone⟩
    change (Task.stop _).state = _
    rw [Task.stop, if_neg hend]

theorem Sound.stop (h : Sound s) : Sound s.stop := by
  have hidle : Idle s.taskStop := by
    rcases h with ⟨i, h⟩ | h
    · exact h.taskStop
    · exact h.taskStop
  rw [Client.stop]
  split
  · exact .inr (hidle.setOwner _)
  · exact .inr hidle

/-- A task without a session, and with no start scheduled. -/
structure Parted (s : Client F) : Prop where
  st : s.task.st = none
  ev : s.task.ev = false
  gone : ∀ j < s.next, (s.heap j).Gone

theorem Parted.taskStart (h : Parted s)
    (htable : ∀ new args, s.task.owner = .sourcetableFetcher new args →
      args.sourcetable.isSome = true) (hs : s.taskStart env = some s') : Sound s' := by
  rw [Client.taskStart] at hs
  split at hs
  · contradiction
  · rw [← Option.some.inj hs]
    refine .inl ⟨s.next, ⟨Nat.lt_succ_self _, ?_, ?_, rfl, rfl, h.ev, ?_⟩, ?_, htable⟩
    · simp [NtripState.new]
    · exact ⟨(NtripState.new s.task.owner env.time).ownLivesource, by
        simp [NtripState.duties, NtripState.new]⟩
    · intro j hj hne
      have hlt : j < s.next := Nat.lt_of_le_of_ne (Nat.le_of_lt_succ hj) hne
      simpa [hne] using h.gone j hlt
    · intro mountpoint persistent howner
      change s.task.owner = _ at howner
      simp [NtripState.new, howner]

theorem Parted.freeTask (h : Parted s) : Sound s.freeTask := by
  refine .inr ?_
  rw [Client.freeTask, Client.taskStop]
  split
  · next hend => exact ⟨h.st, rested_of_taskEnd hend h.ev, h.gone⟩
  · next hend =>
    rw [stopSt]
    dsimp only
    rw [h.st]
    refine ⟨rfl, rested_of_taskEnd ?_ rfl, h.gone⟩
    change (Task.stop _).state = _
    rw [Task.stop, if_neg hend]

theorem Parted.start (h : Parted s) (hs : s.start env = some s') : Sound s' := by
  rw [Client.start] at hs
  split at hs
  · next new args howner =>
    split at hs
    · contradiction
    · have hset : Parted (s.setOwner (.sourcetableFetcher new
          { args with sourcetable := some new })) := ⟨h.st, h.ev, h.gone⟩
      refine hset.taskStart ?_ hs
      intro new' args' heq
      obtain ⟨-, rfl⟩ := TaskOwner.sourcetableFetcher.inj heq
      rfl
  · next howner =>
    obtain ⟨s₁, h₁, hs⟩ := Option.bind_eq_some_iff.mp hs
    have hkept : ∀ i, Kept i s s₁ := fun i => taskQueue_kept (by simp [h.st]) h₁
    have hk := hkept s.next
    refine Parted.taskStart ⟨hk.st.trans h.st, hk.ev.trans h.ev, ?_⟩ ?_ hs
    · intro j hj
      rw [hk.next] at hj
      rw [hk.others j (Nat.ne_of_lt hj)]
      exact h.gone j hj
    · intro new args heq
      rw [hk.owner, howner] at heq
      contradiction
  · next howner =>
    refine h.taskStart ?_ hs
    intro new args heq
    rw [howner] at heq
    contradiction
  · next howner =>
    split at hs
    · refine h.taskStart ?_ hs
      intro new args heq
      rw [howner] at heq
      contradiction
    · rw [← Option.some.inj hs]
      exact h.freeTask

/-! ### Every step -/

theorem Idle.queue (h : Idle s) {packet : Packet} (hs : s.taskQueue packet = some s') :
    Idle s' := by
  have hkept : Kept s.next s s' := taskQueue_kept (by simp [h.st]) hs
  refine ⟨hkept.st.trans h.st, ⟨?_, ?_⟩, ?_⟩
  · rw [hkept.refreshDelay, hkept.running, hkept.ev]
    exact h.rested.scheduled
  · rw [hkept.running, hkept.ev]
    exact h.rested.unscheduled
  · intro j hj
    rw [hkept.next] at hj
    rw [hkept.others j (Nat.ne_of_lt hj)]
    exact h.gone j hj

/-- **One step.** -/
theorem Sound.step (h : Sound s) {l : Env F × Event} (hok : Decodes s l)
    (hs : s.step threads l = some s') : Sound s' := by
  obtain ⟨env, e⟩ := l
  cases e with
  | read i bytes =>
    rw [Client.step] at hs
    refine h.callback (fun hlive hread => (hlive.receive bytes).readcb ?_ hread) hs
    rw [heap_modifySt_self]
    exact fun hin hrefuses => hok ⟨hlive.lt, hlive.state, hin, hrefuses⟩
  | event i isConnected =>
    rw [Client.step] at hs
    exact h.callback (fun hlive hevent => hlive.eventcb hevent) hs
  | drop i =>
    rw [Client.step] at hs
    split at hs
    · next hlt => exact h.drop hlt hs
    · rwa [← Option.some.inj hs]
  | stop =>
    rw [← Option.some.inj hs]
    exact h.stop
  | timer =>
    rw [Client.step] at hs
    split at hs
    · next hev =>
      rcases h with ⟨i, h⟩ | h
      · rw [h.ev] at hev
        contradiction
      · exact Parted.start (s := { s with task := { s.task with ev := false } })
          ⟨h.st, rfl, h.gone⟩ hs
    · rwa [← Option.some.inj hs]
  | queue packet =>
    rcases h with ⟨i, h⟩ | h
    · exact .inl ⟨i, h.kept (taskQueue_kept (by simp [h.st]) hs)⟩
    · exact .inr (h.queue hs)
  | start =>
    rw [Client.step] at hs
    split at hs
    · rwa [← Option.some.inj hs]
    · next hstate =>
      push Not at hstate
      rcases h with ⟨i, h⟩ | h
      · exact absurd h.running hstate.1
      · exact Parted.start ⟨h.st, h.rested.unscheduled hstate.1, h.gone⟩ hs

/-- A task that was just created. -/
def Init (s : Client F) : Prop :=
  ∃ owner refreshDelay bulkMaxSize queueMaxSize,
    s = .new owner refreshDelay bulkMaxSize queueMaxSize

theorem Init.sound (h : Init s) : Sound s := by
  obtain ⟨owner, refreshDelay, bulkMaxSize, queueMaxSize, rfl⟩ := h
  exact .inr ⟨rfl, ⟨by simp [Client.new, Task.new], fun _ => rfl⟩, by simp [Client.new]⟩

/-- A read that the decoder refuses ends the session, to which the task still refers. -/
theorem Live.readcb_refused (h : Live i s) (hin : (s.heap i).inFilter = true)
    (hrefuses : refuses (s.heap i).toSession = true) (hs : s.readcb env i = some s') :
    s'.next = s.next ∧ (s'.heap i).state = .ntripEnd ∧ s'.task.st = some i := by
  obtain ⟨r, hr, hs⟩ := Option.bind_eq_some_iff.mp hs
  rw [NtripState.filterRunInput, if_pos hin] at hr
  obtain ⟨⟨res, session⟩, hdecode, hr⟩ := Option.map_eq_some_iff.mp hr
  obtain rfl : res = .bevError := (ntripChunkDecode_bevError_iff hdecode).mpr hrefuses
  have hstate : session.state ≠ .ntripEnd := state_ntripChunkDecode hdecode h.state
  obtain rfl := hr
  rw [if_neg (by simp)] at hs
  rw [← Option.some.inj hs]
  refine ⟨rfl, ?_, h.st⟩
  change (Function.update s.heap i _ i : NtripState).state = _
  rw [Function.update_self]
  exact (@NtripState.decrefEnd_eq { s.heap i with toSession := session } hstate).1

theorem Sound.not_endReachesTask (h : Sound s) {l : Env F × Event} (hl : ¬ Decodes s l)
    (hs : s.step threads l = some s') : ¬ EndReachesTask s' := by
  obtain ⟨env, e⟩ := l
  cases e with
  | read i bytes =>
    obtain ⟨hlt, hstate, hin, hrefuses⟩ := not_not.mp hl
    have hlive : Live i s := by
      rcases h with ⟨j, h⟩ | h
      · by_cases hne : i = j
        · exact hne ▸ h
        · exact absurd (h.others i hlt hne).state hstate
      · exact absurd (h.gone i hlt).state hstate
    obtain ⟨own, hduties⟩ := hlive.duties
    simp only [NtripState.duties, Prod.mk.injEq] at hduties
    obtain ⟨-, -, -, hrefcnt, -⟩ := hduties
    rw [Client.step, Client.callback, if_neg (by simp [hlt, hrefcnt, hstate])] at hs
    have hread := (hlive.receive bytes).readcb_refused (by rwa [heap_modifySt_self])
      (by rwa [heap_modifySt_self]) hs
    exact fun hreaches => hreaches.unreferenced i (hread.1 ▸ hlt) hread.2.1 hread.2.2
  | event i isConnected => exact absurd trivial hl
  | drop i => exact absurd trivial hl
  | stop => exact absurd trivial hl
  | timer => exact absurd trivial hl
  | queue packet => exact absurd trivial hl
  | start => exact absurd trivial hl

open Transition

/-- **The end of a session reaches its task**, in every state of every run whose reads all meet the
condition, and in no state after a read that does not. -/
theorem reachable_endReachesTask (threads : Bool)
    (h : Reachable Init Decodes (fun s l => s.step threads l) s) :
    EndReachesTask s ∧
      ∀ l s', s.step threads l = some s' → (EndReachesTask s' ↔ Decodes s l) := by
  have hsound : Sound s := h.invariant (fun _ hs => hs.sound) fun _ _ _ hs hok hstep =>
    hs.step hok hstep
  refine ⟨hsound.endReachesTask, ?_⟩
  intro l s' hstep
  constructor
  · intro hreaches
    by_contra hl
    exact hsound.not_endReachesTask hl hstep hreaches
  · exact fun hl => (hsound.step hl hstep).endReachesTask

/-! ### A run on each side of the condition -/

/-- The surroundings of a source fetcher that has nothing to send to. -/
def quietEnv : Env Unit where
  config := ⟨4096, 4096, 3600⟩
  time := 0
  timeOfDay := ⟨0, 0⟩
  scanFloat := fun _ => none
  text := fun _ => []
  checkserial := .new []
  full := .new []
  sendSubscribers := fun _ => false
  pullable := true

/-- A server starts a reply in chunks, then something else happens. -/
def chunkedReply (e : Event) : List (Env Unit × Event) :=
  [(quietEnv, .start), (quietEnv, .event 0 true),
    (quietEnv, .read 0 (cstr "HTTP/1.1 200 OK\r\nTransfer-Encoding: chunked\r\n\r\n")),
    (quietEnv, e)]

/-- The source fetcher of a persistent mountpoint. -/
def persistentFetcher : Client Unit := .new (.sourceFetcher (cstr "MOUNT") true) 10 0 0

/-- What is seen of a task and of its first session. -/
def seen (s : Client Unit) : Option ℕ × Bool × SessionState × ℕ :=
  (s.task.st, s.task.ev, (s.heap 0).state, (s.heap 0).endCbs)

open Transition in
/-- The server closes the connection: `end_cb` is called and the next start is scheduled. -/
theorem reachable_endReachesTask_closed : ∃ s : Client Unit,
    seen s = (none, true, .ntripEnd, 1) ∧ EndReachesTask s := by
  have hrun : ((chunkedReply (.event 0 false)).foldlM
      (fun s l => if Decodes s l then s.step false l else none) persistentFetcher).map seen =
        some (none, true, .ntripEnd, 1) := by decide +kernel
  obtain ⟨s, hs, hseen⟩ := Option.map_eq_some_iff.mp hrun
  have hinit : Reachable Init Decodes (fun s l => s.step false l) persistentFetcher :=
    .refl ⟨_, _, _, _, rfl⟩
  exact ⟨s, hseen, (reachable_endReachesTask false (reachable_of_foldlM hinit hs)).1⟩

open Transition in
/-- A chunk size that is not a number ends the session alone: the task still refers to it, `end_cb`
is not called and no start is scheduled. -/
theorem not_reachable_endReachesTask : ¬ ∀ (threads : Bool) (s : Client Unit),
    Reachable Init (fun _ _ => True) (fun s l => s.step threads l) s → EndReachesTask s := by
  intro h
  have hrun : ((chunkedReply (.read 0 (cstr "zz\r\n"))).foldlM
      (fun s l => if True then s.step true l else none) persistentFetcher).map
        (fun s => (seen s, s.next)) = some ((some 0, false, .ntripEnd, 0), 1) := by decide +kernel
  obtain ⟨s, hs, hseen⟩ := Option.map_eq_some_iff.mp hrun
  have hreach : Reachable Init (fun _ _ => True) (fun s l => s.step true l) s :=
    reachable_of_foldlM (.refl ⟨_, _, _, _, rfl⟩) hs
  simp only [seen, Prod.mk.injEq] at hseen
  obtain ⟨⟨hst, -, hstate, -⟩, hnext⟩ := hseen
  exact (h true s hreach).unreferenced 0 (by omega) hstate hst

end Client

end Ntripcli

end ChilopodCaster
