import ChilopodCaster.Jobs
import Mathlib.Data.List.Nodup

/-!
# The jobs of a session

The counter `newjobs` of a session tells whether it is in a queue of the job list: it is -1 if it
is, and 0 if it is not. A worker that takes the session from the queue leaves it at -1 until it has
the lock of the session. From then on jobs may be appended while others are run, and the session may
be put in a queue again, then be found there without any job.

## Main definitions

* `Joblist.Queued` — a session is in a queue, or a worker has just taken it from there
* `SoundNtrip` — what holds of one session
* `Joblist.Sound` — the invariant of a job list

## Main results

* `Joblist.Sound.step` — every step keeps the invariant
* `Joblist.reachable_jobs` — queues and counters, and what happens to each job
-/

namespace ChilopodCaster

variable {W S κ ι : Type}

/-- The session a worker has taken from the queue, before it has its lock. -/
def WorkerPc.dequeues : WorkerPc S κ ι → Option S
  | .dequeued st => some st
  | _ => none

/-- The session whose lock a worker holds. -/
def WorkerPc.serves : WorkerPc S κ ι → Option S
  | .serving st => some st
  | .executing st _ => some st
  | _ => none

/-- What holds of a session, which is in a queue or not. -/
structure SoundNtrip (jobs : NtripJobs W κ) (queued : Prop) : Prop where
  njobs : jobs.njobs = jobs.jobq.length
  newjobs_of_queued : queued → jobs.newjobs = -1
  newjobs_of_not_queued : ¬ queued → jobs.newjobs = 0
  history : jobs.appended = jobs.executed ++ jobs.discarded ++ jobs.jobq
  discarded : jobs.discarded ≠ [] → jobs.ended = true
  free : jobs.free ≠ .inUse → jobs.ended = true ∧ jobs.jobq = []
  work : jobs.jobq ≠ [] → queued ∨ jobs.lockedBy.isSome

theorem SoundNtrip.congr {jobs : NtripJobs W κ} {queued queued' : Prop}
    (h : SoundNtrip jobs queued) (hiff : queued ↔ queued') : SoundNtrip jobs queued' :=
  propext hiff ▸ h

namespace Joblist

/-- The sessions in the two queues. -/
def queue (this : Joblist W S κ ι) : List S := this.ntripQueue ++ this.appendQueue

/-- A session is in a queue, or a worker has just taken it from there. -/
def Queued (this : Joblist W S κ ι) (st : S) : Prop :=
  st ∈ this.queue ∨ ∃ w, (this.pc w).dequeues = some st

/-- The invariant of a job list. -/
structure Sound (this : Joblist W S κ ι) : Prop where
  session : ∀ st, SoundNtrip (this.session st) (this.Queued st)
  nodup : this.queue.Nodup
  dequeued : ∀ w st, (this.pc w).dequeues = some st →
    st ∉ this.queue ∧ ∀ w', (this.pc w').dequeues = some st → w' = w
  locked : ∀ w st, (this.session st).lockedBy = some w ↔ (this.pc w).serves = some st
  ntripNjobs : this.ntripNjobs = this.ntripQueue.length
  appendNtripNjobs : this.appendNtripNjobs = this.appendQueue.length
  njobs : this.njobs = this.jobq.length
  appendNjobs : this.appendNjobs = this.appendJobq.length
  failed : this.failed = false

theorem sound_new : (new W S κ ι).Sound where
  session st := by
    have hqueued : ¬ (new W S κ ι).Queued st := by simp [Queued, queue, new, WorkerPc.dequeues]
    exact ⟨rfl, fun hq => absurd hq hqueued, fun _ => rfl, rfl, absurd rfl, absurd rfl, absurd rfl⟩
  nodup := by simp [queue, new]
  dequeued := by simp [new, WorkerPc.dequeues]
  locked := by simp [new, NtripJobs.new, WorkerPc.serves]
  ntripNjobs := rfl
  appendNtripNjobs := rfl
  njobs := rfl
  appendNjobs := rfl
  failed := rfl

variable {this that : Joblist W S κ ι} {w : W} {st : S}

/-- No two workers hold the lock of a session. -/
theorem Sound.eq_of_serves (h : this.Sound) {w' : W} (hw : (this.pc w).serves = some st)
    (hw' : (this.pc w').serves = some st) : w' = w := by
  rw [← h.locked] at hw hw'
  rw [hw] at hw'
  exact (Option.some.inj hw').symm

/-! ### Frame lemmas -/

/-- A change of the independent jobs and of where the workers are, but for the sessions they have to
do with. -/
theorem Sound.congr (h : this.Sound) (hntripQueue : that.ntripQueue = this.ntripQueue)
    (happendQueue : that.appendQueue = this.appendQueue)
    (hntripNjobs : that.ntripNjobs = this.ntripNjobs)
    (happendNtripNjobs : that.appendNtripNjobs = this.appendNtripNjobs)
    (hsession : that.session = this.session)
    (hdequeues : ∀ w, (that.pc w).dequeues = (this.pc w).dequeues)
    (hserves : ∀ w, (that.pc w).serves = (this.pc w).serves)
    (hnjobs : that.njobs = that.jobq.length)
    (happendNjobs : that.appendNjobs = that.appendJobq.length)
    (hfailed : that.failed = this.failed) : that.Sound := by
  have hqueue : that.queue = this.queue := by rw [queue, queue, hntripQueue, happendQueue]
  have hqueued : that.Queued = this.Queued := by
    funext st
    rw [Queued, Queued, hqueue]
    simp only [hdequeues]
  constructor
  · intro st
    rw [hsession, hqueued]
    exact h.session st
  · rw [hqueue]
    exact h.nodup
  · intro w st hw
    rw [hdequeues] at hw
    rw [hqueue]
    simp only [hdequeues]
    exact h.dequeued w st hw
  · intro w st
    rw [hsession, hserves]
    exact h.locked w st
  · rw [hntripNjobs, hntripQueue]
    exact h.ntripNjobs
  · rw [happendNtripNjobs, happendQueue]
    exact h.appendNtripNjobs
  · exact hnjobs
  · exact happendNjobs
  · rw [hfailed]
    exact h.failed

/-- A function of where a worker is, after it has moved to where this function is the same. -/
theorem apply_update_pc [DecidableEq W] {α : Type} (f : WorkerPc S κ ι → α)
    {pcs : W → WorkerPc S κ ι} {pc : WorkerPc S κ ι} (h : f pc = f (pcs w)) (w' : W) :
    f (Function.update pcs w pc w') = f (pcs w') := by
  by_cases hw : w' = w
  · rw [hw, Function.update_self, h]
  · rw [Function.update_of_ne hw]

/-- A worker moves, with no change for the sessions. -/
theorem Sound.goto [DecidableEq W] (h : this.Sound) {pc : WorkerPc S κ ι} {mutex : Bool}
    {signals : JobKind → ℕ} (hdequeues : pc.dequeues = (this.pc w).dequeues)
    (hserves : pc.serves = (this.pc w).serves) :
    ({ this with mutex := mutex, signals := signals }.goto w pc).Sound :=
  h.congr rfl rfl rfl rfl rfl (apply_update_pc WorkerPc.dequeues hdequeues)
    (apply_update_pc WorkerPc.serves hserves) h.njobs h.appendNjobs rfl

/-- A session changes, but for its lock and for whether it is in a queue. -/
theorem Sound.setSession [DecidableEq S] (h : this.Sound) {jobs : NtripJobs W κ}
    (hjobs : SoundNtrip jobs (this.Queued st))
    (hlocked : jobs.lockedBy = (this.session st).lockedBy) : (this.setSession st jobs).Sound where
  session st' := by
    change SoundNtrip (Function.update this.session st jobs st') (this.Queued st')
    by_cases hst : st' = st
    · rw [hst, Function.update_self]
      exact hjobs
    · rw [Function.update_of_ne hst]
      exact h.session st'
  nodup := h.nodup
  dequeued := h.dequeued
  locked w st' := by
    change (Function.update this.session st jobs st').lockedBy = some w ↔ _
    by_cases hst : st' = st
    · rw [hst, Function.update_self, hlocked]
      exact h.locked w st
    · rw [Function.update_of_ne hst]
      exact h.locked w st'
  ntripNjobs := h.ntripNjobs
  appendNtripNjobs := h.appendNtripNjobs
  njobs := h.njobs
  appendNjobs := h.appendNjobs
  failed := h.failed

/-! ### Appends -/

theorem Sound.appendMain (h : this.Sound) (job : MainJob ι) : (this.appendMain job).Sound := by
  have hassert : this.appendNjobs ≥ 0 := by
    rw [h.appendNjobs]
    exact Int.natCast_nonneg _
  rw [Joblist.appendMain, assert_of_true _ hassert]
  refine h.congr rfl rfl rfl rfl rfl (fun _ => rfl) (fun _ => rfl) h.njobs ?_ rfl
  change this.appendNjobs + 1 = ((this.appendJobq ++ [job]).length : ℤ)
  rw [h.appendNjobs, List.length_append]
  rfl

/-- The counters of a session say whether its queue is empty. -/
theorem Sound.assert_append (h : this.Sound) :
    if (this.session st).jobq = [] then
      (this.session st).njobs = 0 ∧ (this.session st).newjobs ≤ 0
    else (this.session st).njobs ≠ 0 := by
  have hjobs := h.session st
  split
  · next hnil =>
    refine ⟨by rw [hjobs.njobs, hnil]; rfl, ?_⟩
    by_cases hqueued : this.Queued st
    · rw [hjobs.newjobs_of_queued hqueued]
      decide
    · rw [hjobs.newjobs_of_not_queued hqueued]
  · next hne =>
    rw [hjobs.njobs]
    simpa using hne

/-- A session that is not in a queue is put there. -/
theorem Sound.enqueue [DecidableEq S] (h : this.Sound) {jobs : NtripJobs W κ}
    (hqueued : ¬ this.Queued st) (hjobs : SoundNtrip jobs True)
    (hlocked : jobs.lockedBy = (this.session st).lockedBy)
    (hqueue : that.queue = this.queue ++ [st])
    (hsession : that.session = Function.update this.session st jobs) (hpc : that.pc = this.pc)
    (hntripNjobs : that.ntripNjobs = that.ntripQueue.length)
    (happendNtripNjobs : that.appendNtripNjobs = that.appendQueue.length)
    (hnjobs : that.njobs = that.jobq.length)
    (happendNjobs : that.appendNjobs = that.appendJobq.length)
    (hfailed : that.failed = this.failed) : that.Sound where
  session st' := by
    rw [Queued, hqueue, hsession, hpc, List.mem_append, List.mem_singleton]
    by_cases hst : st' = st
    · rw [hst, Function.update_self]
      exact hjobs.congr (by simp)
    · rw [Function.update_of_ne hst, or_iff_left hst]
      exact h.session st'
  nodup := by
    rw [hqueue]
    exact h.nodup.append (List.nodup_singleton st)
      (List.disjoint_singleton.mpr fun hmem => hqueued (.inl hmem))
  dequeued w st' hw := by
    rw [hpc] at hw ⊢
    have hd := h.dequeued w st' hw
    refine ⟨?_, hd.2⟩
    rw [hqueue, List.mem_append, List.mem_singleton, not_or]
    exact ⟨hd.1, fun hst => hqueued (.inr ⟨w, hst ▸ hw⟩)⟩
  locked w st' := by
    rw [hsession, hpc]
    by_cases hst : st' = st
    · rw [hst, Function.update_self, hlocked]
      exact h.locked w st
    · rw [Function.update_of_ne hst]
      exact h.locked w st'
  ntripNjobs := hntripNjobs
  appendNtripNjobs := happendNtripNjobs
  njobs := hnjobs
  appendNjobs := happendNjobs
  failed := hfailed.trans h.failed

/-- Signals do not matter here. -/
theorem Sound.addSignal (h : this.Sound) (kind : JobKind) : (this.addSignal kind).Sound :=
  h.congr rfl rfl rfl rfl rfl (fun _ => rfl) (fun _ => rfl) h.njobs h.appendNjobs rfl

/-- **A job is appended to a session.** -/
theorem Sound.append [DecidableEq S] [DecidableEq κ] (h : this.Sound) (tmpj : NtripJob κ) :
    (this.append st tmpj).Sound := by
  have hjobs := h.session st
  rw [Joblist.append]
  dsimp only
  split
  · exact h
  · next hended =>
    rw [assert_of_true _ h.assert_append]
    split
    · exact h
    · have hfree : (this.session st).free = .inUse := by
        by_contra hne
        exact hended (hjobs.free hne).1
      have hsound (newjobs : ℤ) (queued : Prop) (hqueued : queued) (hnewjobs : newjobs = -1) :
          SoundNtrip { this.session st with
            jobq := (this.session st).jobq ++ [tmpj]
            njobs := (this.session st).njobs + 1
            appended := (this.session st).appended ++ [tmpj]
            newjobs := newjobs } queued := by
        constructor
        · dsimp only
          rw [hjobs.njobs, List.length_append]
          rfl
        · exact fun _ => hnewjobs
        · exact fun hnot => absurd hqueued hnot
        · dsimp only
          rw [hjobs.history, List.append_assoc]
        · exact hjobs.discarded
        · exact absurd hfree
        · exact fun _ => .inl hqueued
      by_cases hqueued : this.Queued st
      · rw [hjobs.newjobs_of_queued hqueued, if_neg (by decide), if_neg (by decide),
          assert_of_true _ (by decide), assert_of_true _ (by simp)]
        exact (h.setSession (hsound _ _ hqueued rfl) rfl).addSignal _
      · rw [hjobs.newjobs_of_not_queued hqueued, if_pos (by decide), if_pos (by decide),
          assert_of_true _ (by simp)]
        refine Sound.addSignal ?_ _
        refine h.enqueue hqueued (hsound _ _ trivial rfl) rfl ?_ rfl ?_ h.ntripNjobs ?_ h.njobs
          h.appendNjobs ?_
        · exact (List.append_assoc _ _ _).symm
        · rfl
        · change this.appendNtripNjobs + 1 = ((this.appendQueue ++ [st]).length : ℤ)
          rw [h.appendNtripNjobs, List.length_append]
          rfl
        · rfl

/-! ### The workers -/

/-- A worker takes an independent job, or finds none. -/
theorem Sound.takeJob [DecidableEq W] (h : this.Sound) (hpc : this.pc w = .top) :
    (this.takeJob w).Sound := by
  have hswap : ∃ that : Joblist W S κ ι, that.Sound ∧ that.pc w = .top ∧
      (if this.jobq = [] then
        let this := (this.assert (this.njobs = 0)).assert (this.appendNjobs ≥ 0)
        { this with
          jobq := this.appendJobq
          njobs := this.appendNjobs
          appendJobq := this.jobq
          appendNjobs := this.njobs }
      else this) = that := by
    refine ⟨_, ?_, ?_, rfl⟩
    · split
      · next hnil =>
        have hzero : this.njobs = 0 := by rw [h.njobs, hnil]; rfl
        have hnonneg : this.appendNjobs ≥ 0 := by
          rw [h.appendNjobs]
          exact Int.natCast_nonneg _
        rw [assert_of_true _ hzero, assert_of_true _ hnonneg]
        exact h.congr rfl rfl rfl rfl rfl (fun _ => rfl) (fun _ => rfl) h.appendNjobs h.njobs rfl
      · exact h
    · split <;> exact hpc
  obtain ⟨that, hthat, hpc', hif⟩ := hswap
  have hnonneg : that.njobs ≥ 0 := by
    rw [hthat.njobs]
    exact Int.natCast_nonneg _
  rw [Joblist.takeJob, hif]
  dsimp only
  rw [assert_of_true _ hnonneg]
  split
  · exact hthat.goto (by rw [hpc']; rfl) (by rw [hpc']; rfl)
  · next job jobq hjobq =>
    have hlength : that.njobs = jobq.length + 1 := by
      rw [hthat.njobs, hjobq, List.length_cons]
      rfl
    rw [assert_of_true _ (by omega)]
    refine hthat.congr rfl rfl rfl rfl rfl ?_ ?_ ?_ hthat.appendNjobs rfl
    · exact apply_update_pc WorkerPc.dequeues (by rw [hpc']; rfl)
    · exact apply_update_pc WorkerPc.serves (by rw [hpc']; rfl)
    · change that.njobs - 1 = jobq.length
      omega

/-- A worker takes the first session of the queue. -/
theorem Sound.dequeue (h : this.Sound) (w : W) (st : S) (hqueue : this.queue = st :: that.queue)
    (hsession : that.session = this.session)
    (hserves : ∀ w, (that.pc w).serves = (this.pc w).serves)
    (hw : (this.pc w).dequeues = none) (hw' : (that.pc w).dequeues = some st)
    (hdequeues : ∀ w', w' ≠ w → (that.pc w').dequeues = (this.pc w').dequeues)
    (hntripNjobs : that.ntripNjobs = that.ntripQueue.length)
    (happendNtripNjobs : that.appendNtripNjobs = that.appendQueue.length)
    (hnjobs : that.njobs = that.jobq.length)
    (happendNjobs : that.appendNjobs = that.appendJobq.length)
    (hfailed : that.failed = this.failed) : that.Sound := by
  obtain ⟨hst, hnodup⟩ : st ∉ that.queue ∧ that.queue.Nodup :=
    List.nodup_cons.mp (hqueue ▸ h.nodup)
  have hqueued (st' : S) : this.Queued st' ↔ that.Queued st' := by
    rw [Queued, Queued, hqueue, List.mem_cons]
    constructor
    · rintro ((rfl | hmem) | ⟨w', hdeq⟩)
      · exact .inr ⟨w, hw'⟩
      · exact .inl hmem
      · have hne : w' ≠ w := by
          rintro rfl
          rw [hw] at hdeq
          contradiction
        exact .inr ⟨w', (hdequeues w' hne).trans hdeq⟩
    · rintro (hmem | ⟨w', hdeq⟩)
      · exact .inl (.inr hmem)
      · by_cases hne : w' = w
        · rw [hne, hw'] at hdeq
          exact .inl (.inl (Option.some.inj hdeq).symm)
        · exact .inr ⟨w', (hdequeues w' hne).symm.trans hdeq⟩
  have hother (w' : W) (hne : w' ≠ w) : (that.pc w').dequeues ≠ some st := by
    rw [hdequeues w' hne]
    intro hdeq
    exact (h.dequeued w' st hdeq).1 (hqueue ▸ List.mem_cons_self)
  constructor
  · intro st'
    rw [hsession]
    exact (h.session st').congr (hqueued st')
  · exact hnodup
  · intro w' st' hdeq
    by_cases hne : w' = w
    · rw [hne, hw'] at hdeq
      obtain rfl := Option.some.inj hdeq
      refine ⟨hst, ?_⟩
      intro w'' hdeq'
      by_contra hne'
      exact hother w'' (fun heq => hne' (heq.trans hne.symm)) hdeq'
    · have hdeq₀ := hdeq
      rw [hdequeues w' hne] at hdeq₀
      obtain ⟨hnot, huniq⟩ := h.dequeued w' st' hdeq₀
      refine ⟨fun hmem => hnot (hqueue ▸ List.mem_cons_of_mem _ hmem), ?_⟩
      intro w'' hdeq'
      by_cases hne'' : w'' = w
      · rw [hne'', hw'] at hdeq'
        exact absurd ((Option.some.inj hdeq') ▸ hdeq) (hother w' hne)
      · exact huniq w'' ((hdequeues w'' hne'').symm.trans hdeq')
  · intro w' st'
    rw [hsession, hserves]
    exact h.locked w' st'
  · exact hntripNjobs
  · exact happendNtripNjobs
  · exact hnjobs
  · exact happendNjobs
  · exact hfailed.trans h.failed

/-- A broadcast does not matter for the sessions. -/
theorem broadcast_pc [DecidableEq S] [DecidableEq κ] [DecidableEq ι] {α : Type}
    (this : Joblist W S κ ι) (f : WorkerPc S κ ι → α) (hf : f .start = f .waiting) (w : W) :
    f (this.broadcast.pc w) = f (this.pc w) := by
  change f (if this.pc w = .waiting then .start else this.pc w) = _
  split
  · next hpc => rw [hpc, hf]
  · rfl

/-- A worker takes a session, or finds none. -/
theorem Sound.takeSession [DecidableEq W] [DecidableEq S] [DecidableEq κ] [DecidableEq ι]
    (h : this.Sound) {hadJob : Bool} (hpc : this.pc w = .sessions hadJob) :
    (this.takeSession w hadJob).Sound := by
  have hw : (this.pc w).dequeues = none := by rw [hpc]; rfl
  have hs : (this.pc w).serves = none := by rw [hpc]; rfl
  rw [Joblist.takeSession]
  split
  · next st ntripQueue hqueue =>
    refine h.dequeue w st ?_ rfl ?_ hw ?_ ?_ ?_ h.appendNtripNjobs h.njobs
      h.appendNjobs rfl
    · rw [queue, hqueue]
      rfl
    · exact apply_update_pc WorkerPc.serves (by rw [hs]; rfl)
    · change (Function.update this.pc w (.dequeued st) w).dequeues = some st
      rw [Function.update_self]
      rfl
    · exact fun w' hne => congrArg WorkerPc.dequeues (Function.update_of_ne hne _ _)
    · change this.ntripNjobs - 1 = ntripQueue.length
      rw [h.ntripNjobs, hqueue, List.length_cons]
      omega
  · next hempty =>
    split
    · split
      · exact h.goto (by rw [hw]; rfl) (by rw [hs]; rfl)
      · exact h.goto (by rw [hw]; rfl) (by rw [hs]; rfl)
    · next st ntripQueue hqueue =>
      refine h.dequeue w st ?_ rfl ?_ hw ?_ ?_ ?_ ?_ h.njobs h.appendNjobs rfl
      · rw [queue, hempty, hqueue]
        exact (List.append_nil _).symm
      · intro w'
        rw [← broadcast_pc this WorkerPc.serves rfl w']
        refine apply_update_pc WorkerPc.serves ?_ w'
        rw [broadcast_pc this WorkerPc.serves rfl, hs]
        rfl
      · change (Function.update this.broadcast.pc w (.dequeued st) w).dequeues = some st
        rw [Function.update_self]
        rfl
      · intro w' hne
        rw [← broadcast_pc this WorkerPc.dequeues rfl w']
        exact congrArg WorkerPc.dequeues (Function.update_of_ne hne _ _)
      · change this.appendNtripNjobs - 1 = ntripQueue.length
        rw [h.appendNtripNjobs, hqueue, List.length_cons]
        omega
      · change this.ntripNjobs = 0
        rw [h.ntripNjobs, hempty]
        rfl

/-- A worker has the lock of the session that it took from the queue. -/
theorem Sound.lock [DecidableEq W] [DecidableEq S] (h : this.Sound)
    (hpc : this.pc w = .dequeued st) (hfree : (this.session st).lockedBy = none)
    (hqueue : that.queue = this.queue)
    (hsession : that.session = Function.update this.session st
      { this.session st with newjobs := 0, lockedBy := some w })
    (hpc' : that.pc = Function.update this.pc w (.serving st))
    (hntripNjobs : that.ntripNjobs = that.ntripQueue.length)
    (happendNtripNjobs : that.appendNtripNjobs = that.appendQueue.length)
    (hnjobs : that.njobs = that.jobq.length)
    (happendNjobs : that.appendNjobs = that.appendJobq.length)
    (hfailed : that.failed = this.failed) : that.Sound := by
  have hw : (this.pc w).dequeues = some st := by rw [hpc]; rfl
  obtain ⟨hnot, huniq⟩ := h.dequeued w st hw
  have hdequeues (w' : W) (st' : S) : (that.pc w').dequeues = some st' ↔
      (this.pc w').dequeues = some st' ∧ st' ≠ st := by
    rw [hpc']
    by_cases hne : w' = w
    · rw [hne, Function.update_self, hw]
      constructor
      · intro hdeq
        contradiction
      · rintro ⟨hdeq, hst⟩
        exact absurd (Option.some.inj hdeq).symm hst
    · rw [Function.update_of_ne hne]
      constructor
      · intro hdeq
        refine ⟨hdeq, ?_⟩
        rintro rfl
        exact hne (huniq w' hdeq)
      · exact And.left
  have hqueued (st' : S) : that.Queued st' ↔ this.Queued st' ∧ st' ≠ st := by
    rw [Queued, Queued, hqueue]
    simp only [hdequeues]
    constructor
    · rintro (hmem | ⟨w', hdeq, hst⟩)
      · exact ⟨.inl hmem, fun hst => hnot (hst ▸ hmem)⟩
      · exact ⟨.inr ⟨w', hdeq⟩, hst⟩
    · rintro ⟨hmem | ⟨w', hdeq⟩, hst⟩
      · exact .inl hmem
      · exact .inr ⟨w', hdeq, hst⟩
  constructor
  · intro st'
    rw [hsession]
    by_cases hst : st' = st
    · have hjobs := h.session st
      have hnotqueued : ¬ that.Queued st := fun hq => ((hqueued st).mp hq).2 rfl
      rw [hst, Function.update_self]
      exact ⟨hjobs.njobs, fun hq => absurd hq hnotqueued, fun _ => rfl, hjobs.history,
        hjobs.discarded, hjobs.free, fun _ => .inr rfl⟩
    · rw [Function.update_of_ne hst]
      refine (h.session st').congr ?_
      rw [hqueued]
      exact (and_iff_left hst).symm
  · rw [hqueue]
    exact h.nodup
  · intro w' st' hdeq
    obtain ⟨hnot', huniq'⟩ := h.dequeued w' st' ((hdequeues w' st').mp hdeq).1
    rw [hqueue]
    exact ⟨hnot', fun w'' hdeq' => huniq' w'' ((hdequeues w'' st').mp hdeq').1⟩
  · intro w' st'
    have hserves : (this.pc w').serves = some st' → st' ≠ st := by
      intro hs hst
      rw [← h.locked, hst, hfree] at hs
      contradiction
    rw [hsession, hpc']
    by_cases hst : st' = st <;> by_cases hne : w' = w
    · rw [hst, hne, Function.update_self, Function.update_self]
      exact iff_of_true rfl rfl
    · rw [hst, Function.update_self, Function.update_of_ne hne]
      exact iff_of_false (fun heq => hne (Option.some.inj heq).symm)
        fun hs => hserves (hst ▸ hs) hst
    · rw [hne, Function.update_of_ne hst, Function.update_self, h.locked, hpc]
      exact iff_of_false (by simp [WorkerPc.serves]) fun heq => hst (Option.some.inj heq).symm
    · rw [Function.update_of_ne hst, Function.update_of_ne hne]
      exact h.locked w' st'
  · exact hntripNjobs
  · exact happendNtripNjobs
  · exact hnjobs
  · exact happendNjobs
  · exact hfailed.trans h.failed

/-- A worker gives up the lock of a session that has no job left. -/
theorem Sound.unlock [DecidableEq W] [DecidableEq S] (h : this.Sound)
    (hpc : this.pc w = .serving st) (hjobq : (this.session st).jobq = []) :
    ((this.setSession st { this.session st with lockedBy := none }).goto w .deferred).Sound := by
  have hw : (this.pc w).serves = some st := by rw [hpc]; rfl
  have hdequeues (w' : W) :
      (Function.update this.pc w .deferred w').dequeues = (this.pc w').dequeues :=
    apply_update_pc WorkerPc.dequeues (by rw [hpc]; rfl) w'
  constructor
  · intro st'
    have hqueued : Queued ((this.setSession st
        { this.session st with lockedBy := none }).goto w .deferred) st' ↔ this.Queued st' := by
      change _ ∈ this.queue ∨ (∃ w', (Function.update this.pc w .deferred w').dequeues = _) ↔ _
      simp only [hdequeues]
      rfl
    refine SoundNtrip.congr ?_ hqueued.symm
    change SoundNtrip (Function.update this.session st _ st') _
    by_cases hst : st' = st
    · have hjobs := h.session st
      rw [hst, Function.update_self]
      exact ⟨hjobs.njobs, hjobs.newjobs_of_queued, hjobs.newjobs_of_not_queued, hjobs.history,
        hjobs.discarded, hjobs.free, fun hne => absurd hjobq hne⟩
    · rw [Function.update_of_ne hst]
      exact h.session st'
  · exact h.nodup
  · intro w' st' hdeq
    change (Function.update this.pc w .deferred w').dequeues = _ at hdeq
    rw [hdequeues] at hdeq
    obtain ⟨hnot, huniq⟩ := h.dequeued w' st' hdeq
    refine ⟨hnot, ?_⟩
    intro w'' hdeq'
    change (Function.update this.pc w .deferred w'').dequeues = _ at hdeq'
    rw [hdequeues] at hdeq'
    exact huniq w'' hdeq'
  · intro w' st'
    change (Function.update this.session st _ st').lockedBy = _ ↔
      (Function.update this.pc w .deferred w').serves = _
    by_cases hst : st' = st <;> by_cases hne : w' = w
    · rw [hst, hne, Function.update_self, Function.update_self]
      exact iff_of_false (by simp) (by simp [WorkerPc.serves])
    · rw [hst, Function.update_self, Function.update_of_ne hne]
      exact iff_of_false (by simp) fun hs => hne (h.eq_of_serves hw hs)
    · rw [hne, Function.update_of_ne hst, Function.update_self, h.locked, hw]
      exact iff_of_false (fun heq => hst (Option.some.inj heq).symm) (by simp [WorkerPc.serves])
    · rw [Function.update_of_ne hst, Function.update_of_ne hne]
      exact h.locked w' st'
  · exact h.ntripNjobs
  · exact h.appendNtripNjobs
  · exact h.njobs
  · exact h.appendNjobs
  · exact h.failed

/-- A worker takes the next job of a session. -/
theorem Sound.takeNtripJob [DecidableEq W] [DecidableEq S] (h : this.Sound)
    (hpc : this.pc w = .serving st) : (this.takeNtripJob w st).Sound := by
  have hjobs := h.session st
  have hw : (this.session st).lockedBy = some w := by
    rw [h.locked, hpc]
    rfl
  rw [Joblist.takeNtripJob]
  dsimp only
  split
  · next hjobq => exact h.unlock hpc hjobq
  · next job jobq hjobq =>
    have hnewjobs : (if (this.session st).newjobs > 0 then (this.session st).newjobs - 1
        else (this.session st).newjobs) = (this.session st).newjobs := by
      by_cases hqueued : this.Queued st
      · rw [hjobs.newjobs_of_queued hqueued, if_neg (by decide)]
      · rw [hjobs.newjobs_of_not_queued hqueued, if_neg (by decide)]
    have hinuse : (this.session st).free = .inUse := by
      by_contra hne
      rw [(hjobs.free hne).2] at hjobq
      contradiction
    have hnjobs : (this.session st).njobs - 1 = jobq.length := by
      rw [hjobs.njobs, hjobq, List.length_cons]
      omega
    rw [hnewjobs]
    split
    · next hended =>
      refine h.setSession ?_ rfl
      constructor
      · exact hnjobs
      · exact hjobs.newjobs_of_queued
      · exact hjobs.newjobs_of_not_queued
      · dsimp only
        rw [hjobs.history, hjobq]
        simp
      · exact fun _ => hended
      · exact absurd hinuse
      · exact fun _ => .inr (by rw [hw]; rfl)
    · next hended =>
      have hnone : (this.session st).discarded = [] := by
        by_contra hne
        exact hended (hjobs.discarded hne)
      have hset : (this.setSession st
          { this.session st with
            jobq := jobq
            njobs := (this.session st).njobs - 1
            executed := (this.session st).executed ++ [job] }).Sound := by
        refine h.setSession ?_ rfl
        constructor
        · exact hnjobs
        · exact hjobs.newjobs_of_queued
        · exact hjobs.newjobs_of_not_queued
        · dsimp only
          rw [hjobs.history, hjobq, hnone]
          simp
        · exact hjobs.discarded
        · exact absurd hinuse
        · exact fun _ => .inr (by rw [hw]; rfl)
      refine hset.goto ?_ ?_
      · change _ = (this.pc w).dequeues
        rw [hpc]
        rfl
      · change _ = (this.pc w).serves
        rw [hpc]
        rfl

/-- **One step of a worker.** -/
theorem Sound.work [DecidableEq W] [DecidableEq S] [DecidableEq κ] [DecidableEq ι] (h : this.Sound)
    (hwork : this.work w = some that) : that.Sound := by
  -- most steps have nothing to do with the sessions
  have hmove {pc : WorkerPc S κ ι} {mutex : Bool}
      (heq : some ({ this with mutex := mutex }.goto w pc) = some that)
      (hd : pc.dequeues = (this.pc w).dequeues) (hs : pc.serves = (this.pc w).serves) :
      that.Sound := by
    obtain rfl := Option.some.inj heq
    exact h.goto hd hs
  rw [Joblist.work] at hwork
  cases hpc : this.pc w with
  | start =>
    simp only [hpc] at hwork hmove
    split at hwork
    · contradiction
    · exact hmove hwork rfl rfl
  | top =>
    simp only [hpc, Option.some.injEq] at hwork
    exact hwork ▸ h.takeJob hpc
  | running job =>
    cases job with
    | stopThread =>
      simp only [hpc] at hwork hmove
      exact hmove hwork rfl rfl
    | call job =>
      simp only [hpc] at hwork hmove
      exact hmove hwork rfl rfl
  | relock =>
    simp only [hpc] at hwork hmove
    split at hwork
    · contradiction
    · exact hmove hwork rfl rfl
  | sessions hadJob =>
    simp only [hpc, Option.some.injEq] at hwork
    exact hwork ▸ h.takeSession hpc
  | dequeued st =>
    simp only [hpc] at hwork
    split at hwork
    · contradiction
    · next hfree =>
      obtain rfl := Option.some.inj hwork
      exact h.lock hpc (by simpa using hfree) rfl rfl rfl h.ntripNjobs h.appendNtripNjobs h.njobs
        h.appendNjobs rfl
  | serving st =>
    simp only [hpc, Option.some.injEq] at hwork
    exact hwork ▸ h.takeNtripJob hpc
  | executing st job =>
    simp only [hpc] at hwork hmove
    exact hmove hwork rfl rfl
  | deferred =>
    simp only [hpc] at hwork hmove
    exact hmove hwork rfl rfl
  | beforeWait =>
    simp only [hpc] at hwork hmove
    exact hmove hwork rfl rfl
  | waiting => simp [hpc] at hwork
  | exited => simp [hpc] at hwork

/-- Two jobs are equal for `job_equal` if they are the same. -/
theorem equal_iff [DecidableEq κ] {job job' : NtripJob κ} : job.equal job' = true ↔ job = job' := by
  cases job <;> cases job' <;> simp [NtripJob.equal, and_comm]

/-- A job is appended unless it is the same as the last one queued. -/
theorem appended_append [DecidableEq S] [DecidableEq κ] {tmpj : NtripJob κ}
    (hended : (this.session st).ended = false) :
    ((this.append st tmpj).session st).appended =
      if (this.session st).jobq.getLast? = some tmpj then (this.session st).appended
      else (this.session st).appended ++ [tmpj] := by
  have hsame : (this.session st).jobq.getLast?.any (·.equal tmpj) = true ↔
      (this.session st).jobq.getLast? = some tmpj := by
    cases (this.session st).jobq.getLast? with
    | none => simp
    | some job => simpa using equal_iff
  rw [Joblist.append]
  dsimp only
  rw [if_neg (by simp [hended])]
  by_cases hlast : (this.session st).jobq.getLast? = some tmpj
  · rw [if_pos hlast, if_pos (hsame.mpr hlast)]
    rfl
  · rw [if_neg hlast, if_neg (mt hsame.mp hlast)]
    generalize (if (this.session st).newjobs ≥ 0 then _ else _) = newjobs
    split
    · change (Function.update this.session st _ st).appended = _
      rw [Function.update_self]
    · change (Function.update this.session st _ st).appended = _
      rw [Function.update_self]

/-! ### The end of a session -/

theorem Sound.deferredFree [DecidableEq S] (h : this.Sound)
    (hended : (this.session st).ended = true) :
    (this.setSession st { drain (this.session st) with free := .deferred }).Sound := by
  have hjobs := h.session st
  have hnewjobs : (drain (this.session st)).newjobs = (this.session st).newjobs := by
    rw [drain]
    by_cases hqueued : this.Queued st
    · rw [hjobs.newjobs_of_queued hqueued]
      rfl
    · rw [hjobs.newjobs_of_not_queued hqueued]
      rfl
  refine h.setSession ?_ rfl
  constructor
  · change (this.session st).njobs - (this.session st).jobq.length = 0
    rw [hjobs.njobs, Int.sub_self]
  · rw [hnewjobs]
    exact hjobs.newjobs_of_queued
  · rw [hnewjobs]
    exact hjobs.newjobs_of_not_queued
  · change (this.session st).appended =
      (this.session st).executed ++ ((this.session st).discarded ++ (this.session st).jobq) ++ []
    rw [hjobs.history, List.append_nil, List.append_assoc]
  · exact fun _ => hended
  · exact fun _ => ⟨hended, rfl⟩
  · exact absurd rfl

theorem Sound.deferredRun [DecidableEq S] [DecidableEq κ] (h : this.Sound)
    (hfree : (this.session st).free = .deferred) : (this.deferredRun st).Sound := by
  have hjobs := h.session st
  obtain ⟨hended, hjobq⟩ := hjobs.free (by rw [hfree]; decide)
  rw [Joblist.deferredRun]
  rw [assert_of_true _ hjobq]
  split
  · exact h
  · next hne =>
    have hnjobs : (this.session st).njobs = 0 := by rw [hjobs.njobs, hjobq]; rfl
    rw [assert_of_true _ hne, assert_of_true _ hnjobs]
    refine h.setSession ?_ rfl
    exact ⟨hjobs.njobs, hjobs.newjobs_of_queued, hjobs.newjobs_of_not_queued, hjobs.history,
      hjobs.discarded, fun _ => ⟨hended, hjobq⟩, hjobs.work⟩

theorem Sound.decrefEnd [DecidableEq S] (h : this.Sound) :
    (this.setSession st { this.session st with ended := true }).Sound := by
  have hjobs := h.session st
  refine h.setSession ?_ rfl
  exact ⟨hjobs.njobs, hjobs.newjobs_of_queued, hjobs.newjobs_of_not_queued, hjobs.history,
    fun _ => rfl, fun hne => ⟨rfl, (hjobs.free hne).2⟩, hjobs.work⟩

/-! ### Runs -/

variable [Fintype W] [DecidableEq W] [DecidableEq S] [DecidableEq κ] [DecidableEq ι]

/-- **Every step** keeps the invariant. -/
theorem Sound.step (h : this.Sound) {l : JobStep W S κ ι} (hstep : this.step l = some that) :
    that.Sound := by
  cases l with
  | work w => exact h.work hstep
  | appendMain job =>
    obtain rfl := Option.some.inj hstep
    exact h.appendMain job
  | append who st job =>
    rw [Joblist.step] at hstep
    split at hstep
    · obtain rfl := Option.some.inj hstep
      exact h.append job
    · contradiction
  | decrefEnd who st =>
    rw [Joblist.step] at hstep
    split at hstep
    · obtain rfl := Option.some.inj hstep
      exact h.decrefEnd
    · contradiction
  | deferredFree who st =>
    rw [Joblist.step] at hstep
    split at hstep
    · next hif =>
      obtain rfl := Option.some.inj hstep
      exact h.deferredFree hif.2.1
    · contradiction
  | deferredRun st =>
    rw [Joblist.step] at hstep
    split at hstep
    · next hif =>
      obtain rfl := Option.some.inj hstep
      exact h.deferredRun hif.2
    · contradiction
  | signal kind woken =>
    rw [Joblist.step] at hstep
    split at hstep
    · contradiction
    · cases woken with
      | none =>
        dsimp only at hstep
        split at hstep
        · obtain rfl := Option.some.inj hstep
          exact h.congr rfl rfl rfl rfl rfl (fun _ => rfl) (fun _ => rfl) h.njobs h.appendNjobs rfl
        · contradiction
      | some w =>
        dsimp only at hstep
        split at hstep
        · next hpc =>
          obtain rfl := Option.some.inj hstep
          exact h.goto (by rw [hpc]; rfl) (by rw [hpc]; rfl)
        · contradiction
  | wake w =>
    rw [Joblist.step] at hstep
    split at hstep
    · next hpc =>
      obtain rfl := Option.some.inj hstep
      exact h.goto (by rw [hpc]; rfl) (by rw [hpc]; rfl)
    · contradiction

/-- The job lists reached by any interleaving. -/
abbrev Reachable (this : Joblist W S κ ι) : Prop :=
  Transition.Reachable (· = new W S κ ι) (fun _ _ => True) step this

/-- The invariant of every job list reached. -/
theorem reachable_sound (h : Reachable this) : this.Sound := by
  refine h.invariant ?_ fun this l that hthis _ hstep => hthis.step hstep
  rintro _ rfl
  exact sound_new

/-- **Queues and counters, and what happens to each job.** In every state of every run:
* no session is twice in the two queues;
* `newjobs` is -1 if a session is in a queue, or if a worker has taken it from there and does not
  have its lock yet, and 0 otherwise;
* the counters are the lengths of the queues;
* no assertion has failed;
* a job is appended to a session that has not ended, unless it is the last one queued again;
* the jobs appended to a session were executed in this order, or were discarded once the session had
  ended, or are still queued; a session with jobs is in a queue, or being served;
* one worker at most executes jobs of a session. -/
theorem reachable_jobs (h : Reachable this) :
    (this.ntripQueue ++ this.appendQueue).Nodup ∧
    (∀ st, ((this.session st).newjobs = -1 ↔ st ∈ this.ntripQueue ++ this.appendQueue ∨
      ∃ w, this.pc w = .dequeued st)) ∧
    (∀ st, (this.session st).newjobs = -1 ∨ (this.session st).newjobs = 0) ∧
    (∀ st, (this.session st).njobs = (this.session st).jobq.length) ∧
    this.ntripNjobs = this.ntripQueue.length ∧
    this.appendNtripNjobs = this.appendQueue.length ∧
    this.failed = false ∧
    (∀ st job, (this.session st).ended = false → ((this.append st job).session st).appended =
      if (this.session st).jobq.getLast? = some job then (this.session st).appended
      else (this.session st).appended ++ [job]) ∧
    (∀ st, (this.session st).appended =
        (this.session st).executed ++ (this.session st).discarded ++ (this.session st).jobq ∧
      ((this.session st).discarded ≠ [] → (this.session st).ended = true) ∧
      ((this.session st).jobq ≠ [] → (this.session st).newjobs = -1 ∨
        ∃ w, (this.session st).lockedBy = some w)) ∧
    (∀ st w w' job job', this.pc w = .executing st job → this.pc w' = .executing st job' →
      w' = w) := by
  have hs := reachable_sound h
  have hqueued (st : S) : this.Queued st ↔ st ∈ this.ntripQueue ++ this.appendQueue ∨
      ∃ w, this.pc w = .dequeued st := by
    refine or_congr Iff.rfl (exists_congr fun w => ?_)
    cases this.pc w <;> simp [WorkerPc.dequeues]
  refine ⟨hs.nodup, ?_, ?_, fun st => (hs.session st).njobs, hs.ntripNjobs, hs.appendNtripNjobs,
    hs.failed, fun st job hended => appended_append hended, ?_, ?_⟩
  · intro st
    rw [← hqueued]
    constructor
    · intro hneg
      by_contra hnot
      rw [(hs.session st).newjobs_of_not_queued hnot] at hneg
      contradiction
    · exact (hs.session st).newjobs_of_queued
  · intro st
    by_cases hq : this.Queued st
    · exact .inl ((hs.session st).newjobs_of_queued hq)
    · exact .inr ((hs.session st).newjobs_of_not_queued hq)
  · intro st
    refine ⟨(hs.session st).history, (hs.session st).discarded, ?_⟩
    intro hne
    rcases (hs.session st).work hne with hq | hlocked
    · exact .inl ((hs.session st).newjobs_of_queued hq)
    · exact .inr (Option.isSome_iff_exists.mp hlocked)
  · intro st w w' job job' hw hw'
    exact hs.eq_of_serves (by rw [hw]; rfl) (by rw [hw']; rfl)

/-- A worker runs a job of a session, which appends another one: the session is in a queue again
while it is being served. -/
def requeued : List (JobStep Bool Unit ℕ ℕ) :=
  [.append none () (.libeventRw 1), .signal .ntrip none, .work false, .work false, .work false,
    .work false, .work false, .append (some false) () (.ntripLock 2)]

theorem reachable_jobs_requeued :
    ∃ this : Joblist Bool Unit ℕ ℕ, Reachable this ∧
      this.pc false = .executing () (.libeventRw 1) ∧ this.appendQueue = [()] ∧
      (this.session ()).newjobs = -1 ∧
      (this.ntripQueue ++ this.appendQueue).Nodup ∧ this.failed = false := by
  have hobserve : (requeued.foldlM (fun this l => if True then step this l else none)
      (new Bool Unit ℕ ℕ)).map
        (fun this => (this.pc false, this.appendQueue, (this.session ()).newjobs)) =
      some (.executing () (.libeventRw 1), [()], -1) := by
    decide
  obtain ⟨this, hrun, hthis⟩ := Option.map_eq_some_iff.mp hobserve
  have hreach : Reachable this := Transition.reachable_of_foldlM (.refl rfl) hrun
  obtain ⟨hnodup, -, -, -, -, -, hfailed, -⟩ := reachable_jobs hreach
  simp only [Prod.mk.injEq] at hthis
  exact ⟨this, hreach, hthis.1, hthis.2.1, hthis.2.2, hnodup, hfailed⟩

end Joblist

end ChilopodCaster
