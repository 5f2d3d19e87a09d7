import ChilopodCaster.Jobs
import ChilopodCaster.Lib.Threads

/-!
# Wakeups of the workers

A worker that finds all queues empty waits until it is signalled. It looks at the queues under
`mutex` and `append_mutex`, and waits under `condlock`, so a job may be appended and its signal sent
after the worker has looked and before it waits. Such a signal is lost if no other worker waits.

When no signal is lost, the jobs queued are never more than the workers that will look at the queues
and the signals still to be sent, as long as some worker waits. A worker that exits takes one job
with it, the one that stops it.

## Main definitions

* `Joblist.Blocked` — jobs are queued and all workers wait
* `WorkerPc.Missed` — the worker has found a queue empty and will wait without another look at it
* `Joblist.Heard` — a step sends no signal that is lost for such a worker
* `Joblist.Served` — the invariant

## Main results

* `Joblist.not_blocked` — the workers are not all blocked in a run in which every signal is heard
* `Joblist.blocked_lostSignal` — a run in which they are
-/

namespace ChilopodCaster

variable {W S κ ι : Type}

/-- The worker has found the queues for this kind of jobs empty, and will wait without another look
at them. -/
def WorkerPc.Missed (pc : WorkerPc S κ ι) : JobKind → Prop
  | .main => pc = .sessions false ∨ pc = .beforeWait
  | .ntrip => pc = .beforeWait

/-- 1 for a worker that will look at the independent jobs before it waits, if it does not exit. -/
def WorkerPc.ready : WorkerPc S κ ι → ℕ
  | .sessions false => 0
  | .running .stopThread => 0
  | .beforeWait => 0
  | .waiting => 0
  | .exited => 0
  | _ => 1

/-- 1 for a worker that will look at the sessions only. -/
def WorkerPc.looking : WorkerPc S κ ι → ℕ
  | .sessions false => 1
  | _ => 0

namespace Joblist

/-- The independent jobs queued. -/
def mainJobs (this : Joblist W S κ ι) : ℕ := this.jobq.length + this.appendJobq.length

/-- The sessions queued. -/
def ntripJobs (this : Joblist W S κ ι) : ℕ := this.ntripQueue.length + this.appendQueue.length

/-- Some job or session is queued, no signal is still to be sent, and all workers wait, but for
those that have exited. -/
def Blocked (this : Joblist W S κ ι) : Prop :=
  (∃ w, this.pc w = .waiting) ∧ (∀ w, this.pc w = .waiting ∨ this.pc w = .exited) ∧
    (∀ kind, this.signals kind = 0) ∧
    (this.jobq ≠ [] ∨ this.appendJobq ≠ [] ∨ this.ntripQueue ≠ [] ∨ this.appendQueue ≠ [])

/-- A signal that wakes no worker is sent while no worker is between its look at the queues and its
wait. -/
def Heard (this : Joblist W S κ ι) : JobStep W S κ ι → Prop
  | .signal kind none => ∀ w, ¬ (this.pc w).Missed kind
  | _ => True

/-- A worker waits, or will without another look. -/
def Waits (this : Joblist W S κ ι) : Prop := ∃ w, this.pc w = .waiting ∨ this.pc w = .beforeWait

/-- A worker has found no independent job, and has yet to look at the sessions. -/
def Looks (this : Joblist W S κ ι) : Prop := ∃ w, this.pc w = .sessions false

variable {this that : Joblist W S κ ι} {w : W}

/-- Another worker waits already, if the one that moves does not go to wait. -/
theorem waits_of_update [DecidableEq W] {pc : WorkerPc S κ ι}
    (hpc : that.pc = Function.update this.pc w pc) (hwaiting : pc ≠ .waiting)
    (hbefore : pc ≠ .beforeWait) (h : that.Waits) : this.Waits := by
  obtain ⟨w', hw'⟩ := h
  by_cases hne : w' = w
  · rw [hpc, hne, Function.update_self] at hw'
    exact absurd hw' (not_or.mpr ⟨hwaiting, hbefore⟩)
  · rw [hpc, Function.update_of_ne hne] at hw'
    exact ⟨w', hw'⟩

/-- A worker looks at the independent jobs: there is none, or it takes one. -/
theorem takeJob_cases [DecidableEq W] (this : Joblist W S κ ι) (w : W) :
    (this.takeJob w).signals = this.signals ∧ (this.takeJob w).ntripJobs = this.ntripJobs ∧
      ((this.mainJobs = 0 ∧ (this.takeJob w).mainJobs = 0 ∧
          (this.takeJob w).pc = Function.update this.pc w (.sessions false)) ∨
        ∃ job, (this.takeJob w).mainJobs + 1 = this.mainJobs ∧
          (this.takeJob w).pc = Function.update this.pc w (.running job)) := by
  have hswap : ∃ that : Joblist W S κ ι, that.signals = this.signals ∧ that.pc = this.pc ∧
      that.ntripJobs = this.ntripJobs ∧ that.mainJobs = this.mainJobs ∧
      (that.jobq = [] → that.appendJobq = []) ∧
      (if this.jobq = [] then
        let this := (this.assert (this.njobs = 0)).assert (this.appendNjobs ≥ 0)
        { this with
          jobq := this.appendJobq
          njobs := this.appendNjobs
          appendJobq := this.jobq
          appendNjobs := this.njobs }
      else this) = that := by
    split
    · next hnil =>
      refine ⟨_, ?_, ?_, ?_, ?_, ?_, rfl⟩
      · rfl
      · rfl
      · rfl
      · exact Nat.add_comm _ _
      · exact fun _ => hnil
    · next hne => exact ⟨this, rfl, rfl, rfl, rfl, fun hnil => absurd hnil hne, rfl⟩
  obtain ⟨that, hsignals, hpc, hntrip, hmain, hempty, hif⟩ := hswap
  rw [takeJob, hif, ← hsignals, ← hntrip, ← hmain, ← hpc]
  dsimp only
  split
  · next hnil =>
    change that.jobq = [] at hnil
    have hzero : that.mainJobs = 0 := by
      rw [mainJobs, hnil, hempty hnil]
      rfl
    exact ⟨rfl, rfl, .inl ⟨hzero, hzero, rfl⟩⟩
  · next job jobq hcons =>
    change that.jobq = job :: jobq at hcons
    refine ⟨rfl, rfl, .inr ⟨job, ?_, rfl⟩⟩
    change jobq.length + that.appendJobq.length + 1 = that.jobq.length + that.appendJobq.length
    rw [hcons, List.length_cons]
    omega

/-! ### The invariant -/

variable [Fintype W]

/-- The workers that will look at the independent jobs. -/
def ready (this : Joblist W S κ ι) : ℕ := Threads.total WorkerPc.ready this.pc

/-- The workers that will look at the sessions only. -/
def looking (this : Joblist W S κ ι) : ℕ := Threads.total WorkerPc.looking this.pc

/-- The invariant: if a worker waits, there is a worker or a signal for each job queued. -/
structure Served (this : Joblist W S κ ι) : Prop where
  waits : this.Waits → this.mainJobs + this.ntripJobs ≤
    this.ready + this.looking + this.signals .main + this.signals .ntrip
  looks : this.Looks → this.mainJobs ≤ this.ready + this.signals .main

/-- Jobs leave the queues, or come with a signal, and no worker moves. -/
theorem Served.congr (h : this.Served) (hpc : that.pc = this.pc)
    (hmain : that.mainJobs + this.signals .main ≤ this.mainJobs + that.signals .main)
    (hntrip : that.ntripJobs + this.signals .ntrip ≤ this.ntripJobs + that.signals .ntrip) :
    that.Served where
  waits hwaits := by
    rw [Waits, hpc] at hwaits
    have hle := h.waits hwaits
    rw [ready, looking, hpc]
    rw [ready, looking] at hle
    omega
  looks hlooks := by
    rw [Looks, hpc] at hlooks
    have hle := h.looks hlooks
    rw [ready, hpc]
    rw [ready] at hle
    omega

/-- The counts of the workers after one has moved. -/
theorem counts_update [DecidableEq W] {pc : WorkerPc S κ ι}
    (hpc : that.pc = Function.update this.pc w pc) :
    that.ready + (this.pc w).ready = this.ready + pc.ready ∧
      that.looking + (this.pc w).looking = this.looking + pc.looking := by
  rw [ready, looking, hpc]
  exact ⟨Threads.total_update _ _ _ _, Threads.total_update _ _ _ _⟩

/-- A worker moves, neither to wait nor after a look in vain: the jobs that it takes and the signal
that it was sent make up for it. -/
theorem Served.goto [DecidableEq W] (h : this.Served) {pc : WorkerPc S κ ι}
    (hpc : that.pc = Function.update this.pc w pc) (hwaiting : pc ≠ .waiting)
    (hbefore : pc ≠ .beforeWait) (hlooks : pc ≠ .sessions false)
    (hmain : that.mainJobs + (this.pc w).ready + this.signals .main ≤
      this.mainJobs + pc.ready + that.signals .main)
    (hall : that.mainJobs + that.ntripJobs + (this.pc w).ready + (this.pc w).looking +
        this.signals .main + this.signals .ntrip ≤
      this.mainJobs + this.ntripJobs + pc.ready + pc.looking +
        that.signals .main + that.signals .ntrip) : that.Served := by
  obtain ⟨hready, hlooking⟩ := counts_update hpc
  constructor
  · intro hwaits
    have hle := h.waits (waits_of_update hpc hwaiting hbefore hwaits)
    omega
  · rintro ⟨w', hw'⟩
    have hlooks' : this.Looks := by
      by_cases hne : w' = w
      · rw [hpc, hne, Function.update_self] at hw'
        exact absurd hw' hlooks
      · rw [hpc, Function.update_of_ne hne] at hw'
        exact ⟨w', hw'⟩
    have hle := h.looks hlooks'
    omega

/-! ### The workers -/

theorem Served.takeJob [DecidableEq W] (h : this.Served) (hw : this.pc w = .top) :
    (this.takeJob w).Served := by
  obtain ⟨hsignals, hntrip, ⟨hzero, hzero', hpc⟩ | ⟨job, hmain, hpc⟩⟩ := takeJob_cases this w
  · obtain ⟨hready, hlooking⟩ := counts_update hpc
    rw [hw] at hready hlooking
    change _ + 1 = this.ready + 0 at hready
    change _ + 0 = this.looking + 1 at hlooking
    constructor
    · intro hwaits
      have hle := h.waits (waits_of_update hpc (by simp) (by simp) hwaits)
      rw [hsignals, hntrip]
      omega
    · intro _
      omega
  · have htop : (this.pc w).ready = 1 ∧ (this.pc w).looking = 0 := by
      rw [hw]
      exact ⟨rfl, rfl⟩
    refine h.goto hpc (by simp) (by simp) (by simp) ?_ ?_
    · rw [hsignals]
      omega
    · rw [hsignals, hntrip]
      omega

/-- A broadcast makes workers ready. -/
theorem Served.broadcast [DecidableEq S] [DecidableEq κ] [DecidableEq ι] (h : this.Served) :
    this.broadcast.Served := by
  have hpc (w : W) : this.broadcast.pc w = if this.pc w = .waiting then .start else this.pc w := rfl
  have hready : this.ready ≤ this.broadcast.ready := by
    refine Threads.total_le_total fun w => ?_
    rw [hpc]
    split
    · next hw =>
      rw [hw]
      exact Nat.zero_le _
    · exact le_rfl
  have hlooking : this.looking ≤ this.broadcast.looking := by
    refine Threads.total_le_total fun w => ?_
    rw [hpc]
    split
    · next hw =>
      rw [hw]
      exact Nat.zero_le _
    · exact le_rfl
  constructor
  · rintro ⟨w, hw⟩
    have hwaits : this.Waits := by
      rw [hpc] at hw
      split at hw
      · simp at hw
      · exact ⟨w, hw⟩
    exact le_trans (h.waits hwaits) (by
      change _ ≤ this.broadcast.ready + this.broadcast.looking + this.signals .main +
        this.signals .ntrip
      omega)
  · rintro ⟨w, hw⟩
    have hlooks : this.Looks := by
      rw [hpc] at hw
      split at hw
      · simp at hw
      · exact ⟨w, hw⟩
    exact le_trans (h.looks hlooks) (Nat.add_le_add_right hready _)

/-- A worker that has found no job at all goes to wait. -/
theorem Served.beforeWait [DecidableEq W] (h : this.Served) (hw : this.pc w = .sessions false)
    (hnone : this.ntripJobs = 0) (hpc : that.pc = Function.update this.pc w .beforeWait)
    (hmain : that.mainJobs = this.mainJobs) (hntrip : that.ntripJobs = this.ntripJobs)
    (hsignals : that.signals = this.signals) : that.Served := by
  obtain ⟨hready, hlooking⟩ := counts_update hpc
  rw [hw] at hready hlooking
  change _ + 0 = this.ready + 0 at hready
  change _ + 1 = this.looking + 0 at hlooking
  have hle := h.looks ⟨w, hw⟩
  constructor
  · intro _
    rw [hsignals]
    omega
  · intro _
    rw [hsignals]
    omega

/-- A worker takes a session. -/
theorem Served.dequeue [DecidableEq W] (h : this.Served) {st : S}
    (hw : (this.pc w).ready + (this.pc w).looking = 1)
    (hpc : that.pc = Function.update this.pc w (.dequeued st))
    (hmain : that.mainJobs = this.mainJobs) (hntrip : that.ntripJobs + 1 = this.ntripJobs)
    (hsignals : that.signals = this.signals) : that.Served := by
  have hdequeued : (WorkerPc.dequeued st : WorkerPc S κ ι).ready = 1 ∧
      (WorkerPc.dequeued st : WorkerPc S κ ι).looking = 0 := ⟨rfl, rfl⟩
  refine h.goto hpc (by simp) (by simp) (by simp) ?_ ?_
  · rw [hsignals]
    omega
  · rw [hsignals]
    omega

theorem Served.takeSession [DecidableEq W] [DecidableEq S] [DecidableEq κ] [DecidableEq ι]
    (h : this.Served) {hadJob : Bool} (hw : this.pc w = .sessions hadJob) :
    (this.takeSession w hadJob).Served := by
  have hweight : (this.pc w).ready + (this.pc w).looking = 1 := by
    rw [hw]
    cases hadJob <;> rfl
  rw [Joblist.takeSession]
  split
  · next st ntripQueue hqueue =>
    refine h.dequeue hweight rfl rfl ?_ rfl
    change ntripQueue.length + this.appendQueue.length + 1 = this.ntripJobs
    rw [ntripJobs, hqueue, List.length_cons]
    omega
  · next hempty =>
    split
    · next hempty' =>
      cases hadJob with
      | true =>
        rw [if_pos rfl]
        refine h.goto rfl (by simp) (by simp) (by simp) ?_ ?_
        · rw [hw]
          exact le_rfl
        · rw [hw]
          exact le_rfl
      | false =>
        refine h.beforeWait hw ?_ rfl rfl rfl rfl
        rw [ntripJobs, hempty, hempty']
        rfl
    · next st ntripQueue hqueue =>
      have hbroadcast : this.broadcast.pc w = this.pc w := by
        change (if this.pc w = .waiting then .start else this.pc w) = this.pc w
        rw [if_neg (by rw [hw]; simp)]
      refine h.broadcast.dequeue (by rw [hbroadcast]; exact hweight) rfl rfl ?_ rfl
      change ntripQueue.length + 0 + 1 = this.ntripJobs
      rw [ntripJobs, hempty, hqueue, List.length_cons, List.length_nil]
      omega

/-- A worker takes a job of a session, or has run all of them. -/
theorem Served.takeNtripJob [DecidableEq W] [DecidableEq S] (h : this.Served) {st : S}
    (hw : this.pc w = .serving st) : (this.takeNtripJob w st).Served := by
  rw [Joblist.takeNtripJob]
  dsimp only
  split
  · refine h.goto rfl (by simp) (by simp) (by simp) ?_ ?_
    · rw [hw]
      exact le_rfl
    · rw [hw]
      exact le_rfl
  · split
    · exact h.congr rfl le_rfl le_rfl
    · refine h.goto rfl (by simp) (by simp) (by simp) ?_ ?_
      · rw [hw]
        exact le_rfl
      · rw [hw]
        exact le_rfl

/-- A worker waits. -/
theorem Served.waiting [DecidableEq W] (h : this.Served) (hw : this.pc w = .beforeWait)
    (hpc : that.pc = Function.update this.pc w .waiting) (hmain : that.mainJobs = this.mainJobs)
    (hntrip : that.ntripJobs = this.ntripJobs) (hsignals : that.signals = this.signals) :
    that.Served := by
  obtain ⟨hready, hlooking⟩ := counts_update hpc
  rw [hw] at hready hlooking
  change _ + 0 = this.ready + 0 at hready
  change _ + 0 = this.looking + 0 at hlooking
  constructor
  · intro _
    have hle := h.waits ⟨w, .inr hw⟩
    rw [hsignals]
    omega
  · rintro ⟨w', hw'⟩
    have hne : w' ≠ w := by
      rintro rfl
      rw [hpc, Function.update_self] at hw'
      contradiction
    rw [hpc, Function.update_of_ne hne] at hw'
    have hle := h.looks ⟨w', hw'⟩
    rw [hsignals]
    omega

/-- **One step of a worker.** -/
theorem Served.work [DecidableEq W] [DecidableEq S] [DecidableEq κ] [DecidableEq ι]
    (h : this.Served) (hwork : this.work w = some that) : that.Served := by
  -- most steps go from a place where the worker is ready to another one
  have hmove {pc : WorkerPc S κ ι} (hpc : that.pc = Function.update this.pc w pc)
      (hmain : that.mainJobs = this.mainJobs) (hntrip : that.ntripJobs = this.ntripJobs)
      (hsignals : that.signals = this.signals) (hwaiting : pc ≠ .waiting)
      (hbefore : pc ≠ .beforeWait) (hlooks : pc ≠ .sessions false)
      (hready : (this.pc w).ready = pc.ready) (hlooking : (this.pc w).looking = pc.looking) :
      that.Served := by
    refine h.goto hpc hwaiting hbefore hlooks ?_ ?_
    · rw [hmain, hsignals, hready]
    · rw [hmain, hntrip, hsignals, hready, hlooking]
  rw [Joblist.work] at hwork
  cases hpc : this.pc w with
  | start =>
    simp only [hpc] at hwork hmove
    split at hwork
    · contradiction
    · obtain rfl := Option.some.inj hwork
      exact hmove rfl rfl rfl rfl (by simp) (by simp) (by simp) rfl rfl
  | top =>
    simp only [hpc, Option.some.injEq] at hwork
    exact hwork ▸ h.takeJob hpc
  | running job =>
    cases job with
    | stopThread =>
      simp only [hpc, Option.some.injEq] at hwork hmove
      subst hwork
      exact hmove rfl rfl rfl rfl (by simp) (by simp) (by simp) rfl rfl
    | call job =>
      simp only [hpc, Option.some.injEq] at hwork hmove
      subst hwork
      exact hmove rfl rfl rfl rfl (by simp) (by simp) (by simp) rfl rfl
  | relock =>
    simp only [hpc] at hwork hmove
    split at hwork
    · contradiction
    · obtain rfl := Option.some.inj hwork
      exact hmove rfl rfl rfl rfl (by simp) (by simp) (by simp) rfl rfl
  | sessions hadJob =>
    simp only [hpc, Option.some.injEq] at hwork
    exact hwork ▸ h.takeSession hpc
  | dequeued st =>
    simp only [hpc] at hwork hmove
    split at hwork
    · contradiction
    · obtain rfl := Option.some.inj hwork
      exact hmove rfl rfl rfl rfl (by simp) (by simp) (by simp) rfl rfl
  | serving st =>
    simp only [hpc, Option.some.injEq] at hwork
    exact hwork ▸ h.takeNtripJob hpc
  | executing st job =>
    simp only [hpc, Option.some.injEq] at hwork hmove
    subst hwork
    exact hmove rfl rfl rfl rfl (by simp) (by simp) (by simp) rfl rfl
  | deferred =>
    simp only [hpc, Option.some.injEq] at hwork hmove
    subst hwork
    exact hmove rfl rfl rfl rfl (by simp) (by simp) (by simp) rfl rfl
  | beforeWait =>
    simp only [hpc, Option.some.injEq] at hwork
    subst hwork
    exact h.waiting hpc rfl rfl rfl rfl
  | waiting => simp [hpc] at hwork
  | exited => simp [hpc] at hwork

/-! ### Appends and signals -/

theorem Served.assert (h : this.Served) {p : Prop} [Decidable p] : (this.assert p).Served :=
  ⟨h.waits, h.looks⟩

theorem Served.setSession [DecidableEq S] (h : this.Served) {st : S} {jobs : NtripJobs W κ} :
    (this.setSession st jobs).Served :=
  ⟨h.waits, h.looks⟩

/-- What comes with a signal is served. -/
theorem Served.addSignal (h : this.Served) {kind : JobKind} (hpc : that.pc = this.pc)
    (hsignals : that.signals = this.signals)
    (hmain : that.mainJobs ≤ this.mainJobs + if kind = .main then 1 else 0)
    (hntrip : that.ntripJobs ≤ this.ntripJobs + if kind = .ntrip then 1 else 0) :
    (that.addSignal kind).Served := by
  have hadded (kind' : JobKind) : (that.addSignal kind).signals kind' =
      this.signals kind' + if kind = kind' then 1 else 0 := by
    rw [← hsignals]
    by_cases hk : kind' = kind
    · rw [hk, if_pos rfl]
      exact Function.update_self _ _ _
    · rw [if_neg (Ne.symm hk)]
      exact Function.update_of_ne hk _ _
  refine h.congr hpc ?_ ?_
  · change that.mainJobs + _ ≤ _
    rw [hadded]
    omega
  · change that.ntripJobs + _ ≤ _
    rw [hadded]
    omega

theorem Served.moreSignals (h : this.Served) {kind : JobKind} : (this.addSignal kind).Served :=
  h.addSignal rfl rfl (Nat.le_add_right _ _) (Nat.le_add_right _ _)

/-- An independent job is appended. -/
theorem Served.appendMain (h : this.Served) (job : MainJob ι) : (this.appendMain job).Served := by
  refine h.addSignal rfl rfl ?_ (Nat.le_add_right _ _)
  change this.jobq.length + (this.appendJobq ++ [job]).length ≤ this.mainJobs + 1
  rw [mainJobs, List.length_append, List.length_singleton]
  omega

/-- A session is put in the append queue. -/
theorem Served.enqueue [DecidableEq S] (h : this.Served) {st : S} {jobs : NtripJobs W κ} {n : ℤ} :
    ({ this with
      appendQueue := this.appendQueue ++ [st]
      appendNtripNjobs := n }.setSession st jobs |>.addSignal .ntrip).Served := by
  refine h.addSignal rfl rfl (Nat.le_add_right _ _) ?_
  change this.ntripQueue.length + (this.appendQueue ++ [st]).length ≤ this.ntripJobs + 1
  rw [ntripJobs, List.length_append, List.length_singleton]
  omega

/-- A job is appended to a session. -/
theorem Served.append [DecidableEq S] [DecidableEq κ] (h : this.Served) (st : S)
    (job : NtripJob κ) : (this.append st job).Served := by
  rw [Joblist.append]
  dsimp only
  split
  · exact h
  · split
    · exact h.assert
    · generalize (if (this.session st).newjobs ≥ 0 then _ else _) = newjobs
      split
      · exact h.assert.assert.enqueue
      · exact h.assert.assert.assert.setSession.moreSignals

/-- A signal wakes a worker. -/
theorem Served.wake [DecidableEq W] (h : this.Served) (hw : this.pc w = .waiting)
    (hpc : that.pc = Function.update this.pc w .start) (hmain : that.mainJobs = this.mainJobs)
    (hntrip : that.ntripJobs = this.ntripJobs)
    (hsignals : this.signals .main ≤ that.signals .main + 1)
    (hall : this.signals .main + this.signals .ntrip ≤
      that.signals .main + that.signals .ntrip + 1) : that.Served := by
  have hweight : (this.pc w).ready = 0 ∧ (this.pc w).looking = 0 ∧
      (WorkerPc.start : WorkerPc S κ ι).ready = 1 := by
    rw [hw]
    exact ⟨rfl, rfl, rfl⟩
  refine h.goto hpc (by simp) (by simp) (by simp) ?_ ?_
  · omega
  · omega

/-- A signal wakes no worker, and none has missed it. -/
theorem Served.signal (h : this.Served) {kind : JobKind} (hwaiting : ∀ w, this.pc w ≠ .waiting)
    (hheard : ∀ w, ¬ (this.pc w).Missed kind) (hpc : that.pc = this.pc)
    (hmain : that.mainJobs = this.mainJobs)
    (hsignals : kind = .ntrip → that.signals .main = this.signals .main) : that.Served := by
  constructor
  · rintro ⟨w, hw⟩
    rw [hpc] at hw
    rcases hw with hw | hw
    · exact absurd hw (hwaiting w)
    · have hmissed : (this.pc w).Missed kind := by
        cases kind with
        | main => exact .inr hw
        | ntrip => exact hw
      exact absurd hmissed (hheard w)
  · rintro ⟨w, hw⟩
    rw [hpc] at hw
    cases kind with
    | main => exact absurd (.inl hw) (hheard w)
    | ntrip =>
      have hle := h.looks ⟨w, hw⟩
      rw [hmain, ready, hpc, hsignals rfl]
      exact hle

/-! ### Runs -/

variable [DecidableEq W] [DecidableEq S] [DecidableEq κ] [DecidableEq ι]

/-- **Every step** keeps the invariant, if it sends no signal that is lost. -/
theorem Served.step (h : this.Served) {l : JobStep W S κ ι} (hheard : this.Heard l)
    (hstep : this.step l = some that) : that.Served := by
  cases l with
  | work w => exact h.work hstep
  | appendMain job =>
    obtain rfl := Option.some.inj hstep
    exact h.appendMain job
  | append who st job =>
    rw [Joblist.step] at hstep
    split at hstep
    · obtain rfl := Option.some.inj hstep
      exact h.append st job
    · contradiction
  | decrefEnd who st =>
    rw [Joblist.step] at hstep
    split at hstep
    · obtain rfl := Option.some.inj hstep
      exact h.congr rfl le_rfl le_rfl
    · contradiction
  | deferredFree who st =>
    rw [Joblist.step] at hstep
    split at hstep
    · obtain rfl := Option.some.inj hstep
      exact h.congr rfl le_rfl le_rfl
    · contradiction
  | deferredRun st =>
    rw [Joblist.step] at hstep
    split at hstep
    · obtain rfl := Option.some.inj hstep
      rw [Joblist.deferredRun]
      split
      · exact h.assert
      · exact h.assert.assert.assert.setSession
    · contradiction
  | signal kind woken =>
    rw [Joblist.step] at hstep
    split at hstep
    · contradiction
    · next hpos =>
      cases woken with
      | none =>
        dsimp only at hstep
        split at hstep
        · next hwaiting =>
          obtain rfl := Option.some.inj hstep
          refine h.signal hwaiting hheard rfl rfl ?_
          rintro rfl
          rfl
        · contradiction
      | some w =>
        dsimp only at hstep
        split at hstep
        · next hw =>
          obtain rfl := Option.some.inj hstep
          cases kind with
          | main =>
            refine h.wake hw rfl rfl rfl ?_ ?_
            · change this.signals .main ≤ this.signals .main - 1 + 1
              omega
            · change this.signals .main + this.signals .ntrip ≤
                this.signals .main - 1 + this.signals .ntrip + 1
              omega
          | ntrip =>
            refine h.wake hw rfl rfl rfl ?_ ?_
            · change this.signals .main ≤ this.signals .main + 1
              omega
            · change this.signals .main + this.signals .ntrip ≤
                this.signals .main + (this.signals .ntrip - 1) + 1
              omega
        · contradiction
  | wake w =>
    rw [Joblist.step] at hstep
    split at hstep
    · next hw =>
      obtain rfl := Option.some.inj hstep
      exact h.wake hw rfl rfl rfl (Nat.le_succ _) (Nat.le_succ _)
    · contradiction

/-- **The workers are not all blocked** in a run in which no signal is lost for a worker between its
look at the queues and its wait. -/
theorem not_blocked (h : Transition.Reachable (· = new W S κ ι) Heard step this) :
    ¬ this.Blocked := by
  have hserved : this.Served := by
    refine h.invariant ?_ fun this l that hthis hheard hstep => hthis.step hheard hstep
    rintro _ rfl
    exact ⟨fun _ => Nat.zero_le _, fun _ => Nat.zero_le _⟩
  rintro ⟨⟨w, hw⟩, hall, hsignals, hqueue⟩
  have hready : this.ready = 0 := by
    refine Threads.total_eq_zero fun w => ?_
    rcases hall w with hw | hw <;> rw [hw] <;> rfl
  have hlooking : this.looking = 0 := by
    refine Threads.total_eq_zero fun w => ?_
    rcases hall w with hw | hw <;> rw [hw] <;> rfl
  have hle := hserved.waits ⟨w, .inl hw⟩
  rw [hready, hlooking, hsignals, hsignals, mainJobs, ntripJobs] at hle
  simp only [ne_eq, ← List.length_eq_zero_iff] at hqueue
  omega

instance (pc : WorkerPc S κ ι) : (kind : JobKind) → Decidable (pc.Missed kind)
  | .main => inferInstanceAs (Decidable (_ ∨ _))
  | .ntrip => inferInstanceAs (Decidable (_ = _))

instance (this : Joblist W S κ ι) : (l : JobStep W S κ ι) → Decidable (this.Heard l)
  | .signal kind none => inferInstanceAs (Decidable (∀ w, ¬ (this.pc w).Missed kind))
  | .signal _ (some _) => .isTrue trivial
  | .work _ => .isTrue trivial
  | .appendMain _ => .isTrue trivial
  | .append _ _ _ => .isTrue trivial
  | .decrefEnd _ _ => .isTrue trivial
  | .deferredFree _ _ => .isTrue trivial
  | .deferredRun _ => .isTrue trivial
  | .wake _ => .isTrue trivial

/-- A worker waits, and is woken up for a job. -/
def heardSignal : List (JobStep Unit Unit ℕ ℕ) :=
  [.work (), .work (), .work (), .work (), .appendMain (.call 0), .signal .main (some ())]

theorem not_blocked_heardSignal :
    ∃ this : Joblist Unit Unit ℕ ℕ,
      Transition.Reachable (· = new Unit Unit ℕ ℕ) Heard step this ∧
        this.appendJobq = [.call 0] ∧ ¬ this.Blocked := by
  have hobserve : (heardSignal.foldlM (fun this l => if Heard this l then step this l else none)
      (new Unit Unit ℕ ℕ)).map appendJobq = some [.call 0] := by
    decide
  obtain ⟨this, hrun, hthis⟩ := Option.map_eq_some_iff.mp hobserve
  have hreach : Transition.Reachable (· = new Unit Unit ℕ ℕ) Heard step this :=
    Transition.reachable_of_foldlM (.refl rfl) hrun
  exact ⟨this, hreach, hthis, not_blocked hreach⟩

/-- The job is appended, and its signal sent, after the only worker has found the queues empty and
before it waits. -/
def lostSignal : List (JobStep Unit Unit ℕ ℕ) :=
  [.work (), .work (), .work (), .appendMain (.call 0), .signal .main none, .work ()]

/-- A job that waits for a worker, and a worker that waits for a signal. -/
theorem blocked_lostSignal :
    ¬ ∀ this : Joblist Unit Unit ℕ ℕ,
      Transition.Reachable (· = new Unit Unit ℕ ℕ) (fun _ _ => True) step this →
        ¬ this.Blocked := by
  intro h
  have hobserve : (lostSignal.foldlM (fun this l => if True then step this l else none)
      (new Unit Unit ℕ ℕ)).map
        (fun this => (this.pc (), this.signals .main, this.signals .ntrip, this.appendJobq)) =
      some (.waiting, 0, 0, [.call 0]) := by
    decide
  obtain ⟨this, hrun, hthis⟩ := Option.map_eq_some_iff.mp hobserve
  simp only [Prod.mk.injEq] at hthis
  obtain ⟨hpc, hmain, hntrip, hjobq⟩ := hthis
  refine h this (Transition.reachable_of_foldlM (.refl rfl) hrun) ⟨⟨(), hpc⟩, ?_, ?_, ?_⟩
  · exact fun w => .inl hpc
  · intro kind
    cases kind with
    | main => exact hmain
    | ntrip => exact hntrip
  · refine .inr (.inl ?_)
    rw [hjobq]
    simp

end Joblist

end ChilopodCaster
