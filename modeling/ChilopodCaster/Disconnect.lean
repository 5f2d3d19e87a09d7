import Mathlib.Data.List.Nodup
import ChilopodCaster.Bytes
import ChilopodCaster.Lib.Loop

/-!
# Dropping many sessions

`ntrip_drop_by_id` with the number 0, and `drop_source_connections`, go through the list of sessions
under its lock. At each session that matches they end it, leave the lock, and start again from the
head. They count on the session having left the list. In a caster without threads it has, if the
last reference to it was dropped. In a threaded one a job removes it, which another worker runs, and
which needs the lock.

A session that is already ended is ended once more, which does nothing, and counted once more.

The clients of a virtual mountpoint whose base is dropped look for another base. What that starts is
not followed here.

## Main definitions

* `DropSessions` — the list of sessions
* `ntripDropById`, `dropSourceConnections` — the two loops, with what other workers do in between
* `DropsOnce` — the loop ends, meets each session once, and counts those that were not ended
* `DropSession.Last` — the loop holds the last reference to the session

## Main results

* `ntripDropById_and_dropSourceConnections` — both do so if no session matches, or if there are no
  threads and the loop has the last reference to each session that matches
-/

namespace ChilopodCaster

/-- What the loops use of `struct ntrip_state`. A session that is not ended holds a reference to
itself, its task another one, and the job of the request another one; a session that is subscribed
has no task. -/
structure DropSession where
  id : ℕ
  type : CString
  mountpoint : Option CString
  /-- the state is `NTRIP_END` -/
  ended : Bool
  /-- the session of a client, which has a task -/
  task : Bool
  /-- the loop runs in a job of this session, which asked for it -/
  request : Bool
  refcnt : ℕ
  ownLivesource : Option ℕ
  /-- the livesource subscribed to, and whether for a virtual mountpoint -/
  subscription : Option (ℕ × Bool)
  counted : task.toNat + (!ended).toNat + request.toNat ≤ refcnt
  served : subscription.isSome = true → task = false

namespace DropSession

variable (threads : Bool) (this : DropSession)

/-- Without threads, a session is freed with its last reference. -/
def free : Option DropSession :=
  if threads = false ∧ this.refcnt = 0 then none else some this

/-- `ntrip_notify_close`. What it calls drops the reference of the task. -/
def notifyClose : Option DropSession :=
  if this.task then
    let that : DropSession := { this with
      task := false
      refcnt := this.refcnt - this.task.toNat
      counted := by
        have hcounted := this.counted
        rw [Bool.toNat_false]
        omega
      served := fun _ => rfl }
    if this.ended then that.free threads else some that
  else some this

/-- `ntrip_decref_end`. In a threaded caster a job, which has a reference, deletes the livesource of
the session. -/
def decrefEnd : Option DropSession :=
  if h : this.ended = true then some this
  else
    let that : DropSession := { this with
      ended := true
      ownLivesource := none
      refcnt := this.refcnt - 1 + (if threads then this.ownLivesource.toList.length else 0)
      counted := by
        have hcounted := this.counted
        rw [Bool.eq_false_iff.mpr h, Bool.not_false, Bool.toNat_true] at hcounted
        rw [Bool.not_true, Bool.toNat_false]
        split
        · omega
        · omega }
    that.free threads

/-- What `livesource_kill_subscribers_unlocked` does to a session, when a livesource is deleted. -/
def livesourceDel (livesource : ℕ) : Option DropSession :=
  let that : DropSession := { this with
    subscription := none
    served := fun h => absurd h.symm (by simp) }
  if this.subscription = some (livesource, true) then some that
  else if this.subscription = some (livesource, false) then that.decrefEnd threads
  else some this

/-- What the two functions do to a session. -/
def drop : Option DropSession := (this.notifyClose threads).bind (decrefEnd threads)

/-- What the end of `st` does to each session. Without threads the livesource of `st` is deleted at
once. -/
def dropWith (st : DropSession) : Option DropSession :=
  if this.id = st.id then this.drop threads
  else if threads = false ∧ st.ended = false then
    st.ownLivesource.elim (some this) (this.livesourceDel threads)
  else some this

/-- A session that is not ended, to which nothing but its task and itself has a reference. -/
def Last : Prop := this.ended = false ∧ this.refcnt = this.task.toNat + 1

end DropSession

/-- The list of sessions, `caster->ntrips.queue`. -/
structure DropSessions where
  threads : Bool
  queue : List DropSession
  nodup : (queue.map (·.id)).Nodup

theorem map_id_filterMap_sublist {f : DropSession → Option DropSession}
    (hf : ∀ s, ∀ t ∈ f s, t.id = s.id) (queue : List DropSession) :
    ((queue.filterMap f).map (·.id)).Sublist (queue.map (·.id)) := by
  induction queue with
  | nil => exact List.Sublist.refl _
  | cons s queue ih =>
    cases h : f s with
    | none =>
      rw [List.filterMap_cons_none h]
      exact ih.cons _
    | some t =>
      rw [List.filterMap_cons_some h, List.map_cons, List.map_cons, hf s t h]
      exact ih.cons_cons _

namespace DropSession

variable {threads : Bool} {this that : DropSession}

theorem eq_of_free (h : this.free threads = some that) : that = this := by
  unfold free at h
  split at h
  · exact absurd h (Option.some_ne_none that).symm
  · exact (Option.some.inj h).symm

/-- The fields that the loops compare, and whose request it is. -/
def SameNames (this that : DropSession) : Prop :=
  that.id = this.id ∧ that.type = this.type ∧ that.mountpoint = this.mountpoint ∧
    that.request = this.request

theorem sameNames_notifyClose (h : this.notifyClose threads = some that) :
    this.SameNames that := by
  unfold notifyClose at h
  split at h
  · extract_lets closed at h
    split at h
    · rw [eq_of_free h]
      exact ⟨rfl, rfl, rfl, rfl⟩
    · rw [← Option.some.inj h]
      exact ⟨rfl, rfl, rfl, rfl⟩
  · rw [← Option.some.inj h]
    exact ⟨rfl, rfl, rfl, rfl⟩

theorem sameNames_decrefEnd (h : this.decrefEnd threads = some that) : this.SameNames that := by
  unfold decrefEnd at h
  split at h
  · rw [← Option.some.inj h]
    exact ⟨rfl, rfl, rfl, rfl⟩
  · rw [eq_of_free h]
    exact ⟨rfl, rfl, rfl, rfl⟩

theorem sameNames_drop (h : this.drop threads = some that) : this.SameNames that := by
  obtain ⟨closed, hclosed, hend⟩ := Option.bind_eq_some_iff.mp h
  obtain ⟨hid, htype, hmountpoint, hrequest⟩ := sameNames_notifyClose hclosed
  obtain ⟨hid', htype', hmountpoint', hrequest'⟩ := sameNames_decrefEnd hend
  exact ⟨hid'.trans hid, htype'.trans htype, hmountpoint'.trans hmountpoint,
    hrequest'.trans hrequest⟩

theorem sameNames_livesourceDel {livesource : ℕ}
    (h : this.livesourceDel threads livesource = some that) : this.SameNames that := by
  unfold livesourceDel at h
  extract_lets gone at h
  split at h
  · rw [← Option.some.inj h]
    exact ⟨rfl, rfl, rfl, rfl⟩
  · split at h
    · obtain ⟨hid, htype, hmountpoint, hrequest⟩ := sameNames_decrefEnd h
      exact ⟨hid, htype, hmountpoint, hrequest⟩
    · rw [← Option.some.inj h]
      exact ⟨rfl, rfl, rfl, rfl⟩

theorem sameNames_dropWith {st : DropSession} (h : this.dropWith threads st = some that) :
    this.SameNames that := by
  unfold dropWith at h
  split at h
  · exact sameNames_drop h
  · split at h
    · cases hown : st.ownLivesource with
      | none =>
        rw [hown] at h
        rw [← Option.some.inj h]
        exact ⟨rfl, rfl, rfl, rfl⟩
      | some livesource =>
        rw [hown] at h
        exact sameNames_livesourceDel h
    · rw [← Option.some.inj h]
      exact ⟨rfl, rfl, rfl, rfl⟩

/-! ### The last reference -/

theorem drop_of_last (h : this.Last) : this.drop false = none := by
  obtain ⟨hended, hrefcnt⟩ := h
  unfold drop notifyClose
  split
  · rename_i htask
    rw [htask, Bool.toNat_true] at hrefcnt
    simp [hended, htask, decrefEnd, free, hrefcnt]
  · rename_i htask
    rw [Bool.eq_false_iff.mpr htask, Bool.toNat_false] at hrefcnt
    simp [hended, decrefEnd, free, hrefcnt]

theorem decrefEnd_of_not_last (htask : this.task = false) (h : ¬ this.Last) :
    ∃ that, this.decrefEnd false = some that ∧ that.ended = true := by
  unfold decrefEnd
  split
  · exact ⟨this, rfl, ‹_›⟩
  · rename_i hended
    have hcounted := this.counted
    have hmore : this.refcnt ≠ this.task.toNat + 1 :=
      fun hrefcnt => h ⟨Bool.eq_false_iff.mpr hended, hrefcnt⟩
    rw [Bool.eq_false_iff.mpr hended, htask] at hcounted
    rw [htask] at hmore
    unfold free
    rw [if_neg]
    · exact ⟨_, rfl, rfl⟩
    · rintro ⟨-, hzero⟩
      simp only [Bool.false_eq_true, if_false, Nat.add_zero] at hzero
      simp only [Bool.toNat_false, Bool.not_false, Bool.toNat_true] at hcounted hmore
      omega

/-- Without threads, a session that is not freed stays on the list, ended. -/
theorem drop_of_not_last (hended : this.ended = false) (h : ¬ this.Last) :
    ∃ that, this.drop false = some that ∧ that.ended = true := by
  unfold drop notifyClose
  split
  · rename_i htask
    simp only [hended, Bool.false_eq_true, if_false, Option.bind_some]
    refine decrefEnd_of_not_last rfl ?_
    rintro ⟨-, hrefcnt⟩
    refine h ⟨hended, ?_⟩
    have hcounted := this.counted
    simp only [htask, hended, Bool.toNat_true, Bool.toNat_false, Bool.not_false] at *
    omega
  · rename_i htask
    exact decrefEnd_of_not_last (Bool.eq_false_iff.mpr htask) h

theorem last_livesourceDel {livesource : ℕ} (hlast : this.Last)
    (h : this.livesourceDel false livesource = some that) : that.Last := by
  unfold livesourceDel at h
  extract_lets gone at h
  split at h
  · rw [← Option.some.inj h]
    exact hlast
  · split at h
    · rename_i hsub
      have htask : this.task = false := this.served (by rw [hsub]; rfl)
      have hnone : gone.drop false = none := drop_of_last hlast
      unfold drop notifyClose at hnone
      rw [if_neg (by simp [gone, htask]), Option.bind_some] at hnone
      exact absurd (hnone.symm.trans h) (Option.some_ne_none that).symm
    · rw [← Option.some.inj h]
      exact hlast

theorem livesourceDel_of_not_last (livesource : ℕ) (h : ¬ this.Last) :
    ∃ that, this.livesourceDel false livesource = some that ∧ ¬ that.Last := by
  unfold livesourceDel
  extract_lets gone
  split
  · exact ⟨gone, rfl, h⟩
  · split
    · rename_i hsub
      have htask : this.task = false := this.served (by rw [hsub]; rfl)
      obtain ⟨that, hthat, hended⟩ := @decrefEnd_of_not_last gone htask h
      exact ⟨that, hthat, fun hlast => Bool.false_ne_true (hlast.1.symm.trans hended)⟩
    · exact ⟨this, rfl, h⟩

theorem free_threads (this : DropSession) : this.free true = some this :=
  if_neg fun h => Bool.false_ne_true h.1.symm

theorem notifyClose_threads (this : DropSession) :
    ∃ that, this.notifyClose true = some that := by
  unfold notifyClose
  split
  · extract_lets closed
    split
    · exact ⟨closed, free_threads closed⟩
    · exact ⟨closed, rfl⟩
  · exact ⟨this, rfl⟩

theorem decrefEnd_threads (this : DropSession) : ∃ that, this.decrefEnd true = some that := by
  unfold decrefEnd
  split
  · exact ⟨this, rfl⟩
  · exact ⟨_, free_threads _⟩

/-- In a threaded caster no session leaves the list at once. -/
theorem drop_threads (this : DropSession) : ∃ that, this.drop true = some that := by
  obtain ⟨closed, hclosed⟩ := notifyClose_threads this
  obtain ⟨that, hthat⟩ := decrefEnd_threads closed
  exact ⟨that, by rw [drop, hclosed, Option.bind_some, hthat]⟩

theorem livesourceDel_threads (this : DropSession) (livesource : ℕ) :
    ∃ that, this.livesourceDel true livesource = some that := by
  unfold livesourceDel
  extract_lets gone
  split
  · exact ⟨gone, rfl⟩
  · split
    · exact decrefEnd_threads gone
    · exact ⟨this, rfl⟩

end DropSession

namespace DropSessions

/-- Something is done to each session; `none` takes the session off the list. -/
def alter (this : DropSessions) (f : DropSession → Option DropSession)
    (hf : ∀ s, ∀ t ∈ f s, t.id = s.id) : DropSessions where
  threads := this.threads
  queue := this.queue.filterMap f
  nodup := (map_id_filterMap_sublist hf this.queue).nodup this.nodup

/-- `ntrip_notify_close` and `ntrip_decref_end`. -/
def drop (this : DropSessions) (st : DropSession) : DropSessions :=
  this.alter (·.dropWith this.threads st) fun _ _ h => (DropSession.sameNames_dropWith h).1

end DropSessions

/-- What another worker does to the sessions, between two rounds. -/
inductive WorkerStep
  /-- a job for the session, or something else that has a reference to it -/
  | hold (id : ℕ)
  | release (id : ℕ)
  /-- the task ends -/
  | close (id : ℕ)
  /-- the session ends for a reason of its own -/
  | finish (id : ℕ)
  /-- `ntrip_deferred_free2` -/
  | free (id : ℕ)
  | livesourceDel (livesource : ℕ)
  /-- a request is read -/
  | identify (id : ℕ) (type : CString) (mountpoint : Option CString)
  | register (this : DropSession)

namespace DropSession

variable (this : DropSession)

def hold : DropSession := { this with
  refcnt := this.refcnt + 1
  counted := Nat.le_succ_of_le this.counted }

/-- The references of the session to itself, of its task and of the request are not released so. -/
def release : DropSession :=
  if h : this.task.toNat + (!this.ended).toNat + this.request.toNat < this.refcnt then { this with
    refcnt := this.refcnt - 1
    counted := Nat.le_sub_one_of_lt h }
  else this

/-- What a worker does to one session; `none` takes it off the list. -/
def work : WorkerStep → Option DropSession
  | .hold id => if this.id = id ∧ 0 < this.refcnt then some this.hold else some this
  | .release id => if this.id = id then some this.release else some this
  | .close id => if this.id = id then this.notifyClose true else some this
  | .finish id => if this.id = id then this.drop true else some this
  | .free id => if this.id = id ∧ this.ended = true ∧ this.refcnt = 0 then none else some this
  | .livesourceDel livesource => this.livesourceDel true livesource
  | .identify id type mountpoint =>
    if this.id = id then some { this with type := type, mountpoint := mountpoint } else some this
  | .register _ => some this

theorem id_release : this.release.id = this.id := by
  unfold release
  split
  · rfl
  · rfl

theorem id_work {this that : DropSession} {step : WorkerStep} (h : this.work step = some that) :
    that.id = this.id := by
  cases step with
  | hold id =>
    rw [work] at h
    split at h
    · rw [← Option.some.inj h]
      rfl
    · rw [← Option.some.inj h]
  | release id =>
    rw [work] at h
    split at h
    · rw [← Option.some.inj h, id_release]
    · rw [← Option.some.inj h]
  | close id =>
    rw [work] at h
    split at h
    · exact (sameNames_notifyClose h).1
    · rw [← Option.some.inj h]
  | finish id =>
    rw [work] at h
    split at h
    · exact (sameNames_drop h).1
    · rw [← Option.some.inj h]
  | free id =>
    rw [work] at h
    split at h
    · exact absurd h (Option.some_ne_none that).symm
    · rw [← Option.some.inj h]
  | livesourceDel livesource => exact (sameNames_livesourceDel h).1
  | identify id type mountpoint =>
    rw [work] at h
    split at h
    · rw [← Option.some.inj h]
    · rw [← Option.some.inj h]
  | register _ => rw [← Option.some.inj h]

/-- The session that asked for it stays on the list, whatever the other workers do: its job has a
reference to it until the loop ends. -/
theorem work_of_request {this : DropSession} (h : this.request = true) (step : WorkerStep) :
    ∃ that, this.work step = some that ∧ that.request = true := by
  cases step with
  | hold id =>
    rw [work]
    split
    · exact ⟨this.hold, rfl, h⟩
    · exact ⟨this, rfl, h⟩
  | release id =>
    rw [work]
    split
    · refine ⟨this.release, rfl, ?_⟩
      unfold release
      split
      · exact h
      · exact h
    · exact ⟨this, rfl, h⟩
  | close id =>
    rw [work]
    split
    · obtain ⟨that, hthat⟩ := notifyClose_threads this
      exact ⟨that, hthat, (sameNames_notifyClose hthat).2.2.2.trans h⟩
    · exact ⟨this, rfl, h⟩
  | finish id =>
    rw [work]
    split
    · obtain ⟨that, hthat⟩ := drop_threads this
      exact ⟨that, hthat, (sameNames_drop hthat).2.2.2.trans h⟩
    · exact ⟨this, rfl, h⟩
  | free id =>
    refine ⟨this, ?_, h⟩
    rw [work, if_neg]
    rintro ⟨-, -, hzero⟩
    have hcounted := this.counted
    rw [h, Bool.toNat_true, hzero] at hcounted
    exact Nat.not_succ_le_zero _ hcounted
  | livesourceDel livesource =>
    obtain ⟨that, hthat⟩ := livesourceDel_threads this livesource
    exact ⟨that, hthat, (sameNames_livesourceDel hthat).2.2.2.trans h⟩
  | identify id type mountpoint =>
    rw [work]
    split
    · exact ⟨_, rfl, h⟩
    · exact ⟨this, rfl, h⟩
  | register _ => exact ⟨this, rfl, h⟩

end DropSession

namespace DropSessions

/-- A new session is at the end of the list, with a number of its own. -/
def register (this : DropSessions) (st : DropSession) : DropSessions :=
  if h : st.id ∈ this.queue.map (·.id) then this
  else { this with
    queue := this.queue ++ [st]
    nodup := by
      rw [List.map_append]
      exact List.Nodup.append this.nodup (List.nodup_singleton st.id)
        (List.disjoint_singleton.mpr h) }

def work (this : DropSessions) (step : WorkerStep) : DropSessions :=
  let that := this.alter (·.work step) (fun _ _ => DropSession.id_work)
  match step with
  | .register st => that.register st
  | _ => that

end DropSessions

/-- The variables of the two loops: the sessions, the count `r` to be returned, and, for what is
proved about them, the sessions met so far and whether each was not ended. -/
structure DropLoop where
  round : ℕ
  sessions : DropSessions
  r : ℕ
  visited : List (ℕ × Bool)

namespace DropLoop

def start (sessions : DropSessions) : DropLoop := ⟨0, sessions, 0, []⟩

/-- A session is dropped, and counted. -/
def drop (this : DropLoop) (st : DropSession) : DropLoop :=
  ⟨this.round + 1, this.sessions.drop st, this.r + 1, this.visited ++ [(st.id, !st.ended)]⟩

/-- The lock of the list is released and taken again. The other workers, which there are in a
threaded caster, have the list for a while. -/
def restart (schedule : ℕ → List WorkerStep) (this : DropLoop) : DropLoop :=
  { this with
    sessions :=
      if this.sessions.threads then (schedule this.round).foldl DropSessions.work this.sessions
      else this.sessions }

end DropLoop

/-- One pass over the list, that drops the first session that matches. -/
def dropMatchingBody (matching : CString → Option CString → Bool) (schedule : ℕ → List WorkerStep)
    (l : DropLoop) : DropLoop ⊕ DropLoop :=
  match l.sessions.queue.find? fun st => matching st.type st.mountpoint with
  | none => .inr l
  | some st => .inl ((l.drop st).restart schedule)

/-- One pass of `drop_source_connections` over the list. -/
def dropSourceConnectionsBody (mountpoint : CString) : (ℕ → List WorkerStep) → DropLoop →
    DropLoop ⊕ DropLoop :=
  dropMatchingBody fun type mountpoint' => type = cstr "source" ∧ mountpoint' = some mountpoint

/-- One pass of `ntrip_drop_by_id` over the list. -/
def ntripDropByIdBody (id : ℕ) (schedule : ℕ → List WorkerStep) (l : DropLoop) :
    DropLoop ⊕ DropLoop :=
  match l.sessions.queue.find? fun st => (id ≠ 0 ∧ id < st.id) ∨ id = 0 ∨ st.id = id with
  | none => .inr l
  | some st =>
    if id ≠ 0 ∧ id < st.id then .inr l
    else if id ≠ 0 then .inr (l.drop st)
    else .inl ((l.drop st).restart schedule)

/-- At most `n` passes of `ntrip_drop_by_id`. -/
def ntripDropById (id : ℕ) (sessions : DropSessions) (schedule : ℕ → List WorkerStep) (n : ℕ) :
    Option DropLoop :=
  Loop.run (ntripDropByIdBody id schedule) n (.start sessions)

/-- At most `n` passes of `drop_source_connections`. -/
def dropSourceConnections (mountpoint : CString) (sessions : DropSessions)
    (schedule : ℕ → List WorkerStep) (n : ℕ) : Option DropLoop :=
  Loop.run (dropSourceConnectionsBody mountpoint schedule) n (.start sessions)

/-- Whatever the other workers do, the loop ends. It has met no session twice, and the number it
returns is that of the sessions it met that were not ended. -/
def DropsOnce (loop : (ℕ → List WorkerStep) → ℕ → Option DropLoop) : Prop :=
  ∀ schedule, ∃ n l, loop schedule n = some l ∧ (l.visited.map Prod.fst).Nodup ∧
    l.r = l.visited.countP Prod.snd

theorem ntripDropByIdBody_zero (schedule : ℕ → List WorkerStep) :
    ntripDropByIdBody 0 schedule = dropMatchingBody (fun _ _ => true) schedule := by
  funext l
  unfold ntripDropByIdBody dropMatchingBody
  simp only [ne_eq, not_true_eq_false, false_and, true_or, or_true, decide_true, if_false]

/-! ### A pass over the list -/

namespace DropSessions

variable {this : DropSessions} {st s t : DropSession}

/-- A session is the only one with its number. -/
theorem eq_of_id (hs : s ∈ this.queue) (ht : t ∈ this.queue) (h : s.id = t.id) : s = t :=
  List.inj_on_of_nodup_map this.nodup hs ht h

theorem mem_queue_drop :
    t ∈ (this.drop st).queue ↔ ∃ s ∈ this.queue, s.dropWith this.threads st = some t :=
  List.mem_filterMap

end DropSessions

namespace DropSession

variable {threads : Bool} {this that st : DropSession}

theorem dropWith_self : this.dropWith threads this = this.drop threads := if_pos rfl

theorem dropWith_threads (this st : DropSession) : ∃ that, this.dropWith true st = some that := by
  unfold dropWith
  split
  · exact drop_threads this
  · exact ⟨this, if_neg fun h => Bool.false_ne_true h.1.symm⟩

/-- Another session to which nothing else refers is left so, or is freed. -/
theorem last_dropWith (hne : this.id ≠ st.id) (hlast : this.Last)
    (h : this.dropWith false st = some that) : that.Last := by
  rw [dropWith, if_neg hne] at h
  split at h
  · cases hown : st.ownLivesource with
    | none =>
      rw [hown] at h
      rwa [← Option.some.inj h]
    | some livesource =>
      rw [hown] at h
      exact last_livesourceDel hlast h
  · rwa [← Option.some.inj h]

theorem dropWith_of_not_last (hne : this.id ≠ st.id) (h : ¬ this.Last) :
    ∃ that, this.dropWith false st = some that ∧ ¬ that.Last := by
  rw [dropWith, if_neg hne]
  split
  · cases st.ownLivesource with
    | none => exact ⟨this, rfl, h⟩
    | some livesource => exact livesourceDel_of_not_last livesource h
  · exact ⟨this, rfl, h⟩

end DropSession

section

variable (matching : CString → Option CString → Bool)

/-- The sessions that the loop drops. -/
def DropSessions.Matches (this : DropSessions) (st : DropSession) : Prop :=
  st ∈ this.queue ∧ matching st.type st.mountpoint = true

variable {matching}

theorem DropSessions.matches_of_find {this : DropSessions} {st : DropSession}
    (h : this.queue.find? (fun st => matching st.type st.mountpoint) = some st) :
    this.Matches matching st :=
  ⟨List.mem_of_find?_eq_some h,
    List.find?_some (p := fun st : DropSession => matching st.type st.mountpoint) h⟩

theorem matching_of_sameNames (matching : CString → Option CString → Bool)
    {this that : DropSession} (h : this.SameNames that) :
    matching that.type that.mountpoint = matching this.type this.mountpoint := by
  rw [h.2.1, h.2.2.1]

/-- What holds of the loop if it has the last reference to each session that matches. -/
structure DropLoop.Sound (matching : CString → Option CString → Bool) (l : DropLoop) : Prop where
  threads : l.sessions.threads = false
  last : ∀ s, l.sessions.Matches matching s → s.Last
  nodup : (l.visited.map Prod.fst).Nodup
  gone : ∀ s ∈ l.sessions.queue, s.id ∉ l.visited.map Prod.fst
  counted : l.r = l.visited.countP Prod.snd

theorem DropLoop.restart_of_threads {l : DropLoop} (schedule : ℕ → List WorkerStep)
    (h : l.sessions.threads = false) : l.restart schedule = l := by
  rw [DropLoop.restart, h]
  rfl

theorem round_of_sound (schedule : ℕ → List WorkerStep) (l : DropLoop) (hl : l.Sound matching) :
    Loop.Round (dropMatchingBody matching schedule) (·.Sound matching)
      (fun l => l.sessions.queue.length)
      (fun l => (l.visited.map Prod.fst).Nodup ∧ l.r = l.visited.countP Prod.snd) l := by
  unfold Loop.Round dropMatchingBody
  cases hfind : l.sessions.queue.find? fun st => matching st.type st.mountpoint with
  | none => exact ⟨hl.nodup, hl.counted⟩
  | some st =>
    have hmem := List.mem_of_find?_eq_some hfind
    have hlast := hl.last st (DropSessions.matches_of_find hfind)
    have hthreads : (l.drop st).sessions.threads = false := hl.threads
    -- no session of the new list has the number of the one that is dropped
    have hnone : st.dropWith l.sessions.threads st = none := by
      rw [DropSession.dropWith_self, hl.threads, DropSession.drop_of_last hlast]
    have hother : ∀ t ∈ (l.sessions.drop st).queue, ∃ s ∈ l.sessions.queue, s.id ≠ st.id ∧
        s.dropWith false st = some t := by
      intro t ht
      obtain ⟨s, hs, hst⟩ := DropSessions.mem_queue_drop.mp ht
      refine ⟨s, hs, fun hid => ?_, by rwa [hl.threads] at hst⟩
      rw [DropSessions.eq_of_id hs hmem hid, hnone] at hst
      exact absurd hst (Option.some_ne_none t).symm
    simp only
    rw [DropLoop.restart_of_threads schedule hthreads]
    refine ⟨⟨hl.threads, ?_, ?_, ?_, ?_⟩, ?_⟩
    · rintro t ⟨ht, hmatch⟩
      obtain ⟨s, hs, hne, hst⟩ := hother t ht
      have hnames := DropSession.sameNames_dropWith hst
      rw [matching_of_sameNames matching hnames] at hmatch
      exact DropSession.last_dropWith hne (hl.last s ⟨hs, hmatch⟩) hst
    · rw [DropLoop.drop, List.map_append]
      exact List.Nodup.append hl.nodup (List.nodup_singleton st.id)
        (List.disjoint_singleton.mpr (hl.gone st hmem))
    · intro t ht
      obtain ⟨s, hs, hne, hst⟩ := hother t ht
      have hid := (DropSession.sameNames_dropWith hst).1
      rw [DropLoop.drop, List.map_append, List.mem_append, List.map_singleton,
        List.mem_singleton, hid]
      rintro (h | h)
      · exact hl.gone s hs h
      · exact hne h
    · rw [DropLoop.drop, List.countP_append, ← hl.counted, List.countP_singleton, hlast.1]
      rfl
    · exact List.length_filterMap_lt_length_iff_exists.mpr ⟨st, hmem, by rw [hnone]⟩

/-- What holds of the loop if it meets a session again, or one that it counts wrong. -/
structure DropLoop.Unsound (matching : CString → Option CString → Bool) (l : DropLoop) : Prop where
  threads : l.sessions.threads = false
  counted : l.r = l.visited.length
  bad : (∃ s, l.sessions.Matches matching s ∧ ¬ s.Last) ∨ ∃ v ∈ l.visited, v.2 = false

theorem keeps_of_unsound (schedule : ℕ → List WorkerStep) (l : DropLoop)
    (hl : l.Unsound matching) :
    Loop.Keeps (dropMatchingBody matching schedule) (·.Unsound matching)
      (fun l => l.r ≠ l.visited.countP Prod.snd) l := by
  unfold Loop.Keeps dropMatchingBody
  cases hfind : l.sessions.queue.find? fun st => matching st.type st.mountpoint with
  | none =>
    rcases hl.bad with ⟨s, ⟨hs, hmatch⟩, -⟩ | ⟨v, hv, hfalse⟩
    · exact absurd hmatch (List.find?_eq_none.mp hfind s hs)
    · intro h
      rw [hl.counted, eq_comm, List.countP_eq_length] at h
      exact Bool.false_ne_true (hfalse.symm.trans (h v hv))
  | some st =>
    have hmem := List.mem_of_find?_eq_some hfind
    have hthreads : (l.drop st).sessions.threads = false := hl.threads
    simp only
    rw [DropLoop.restart_of_threads schedule hthreads]
    refine ⟨hl.threads, ?_, ?_⟩
    · rw [DropLoop.drop, List.length_append, ← hl.counted, List.length_singleton]
    · rcases hl.bad with ⟨s, ⟨hs, hmatch⟩, hbad⟩ | ⟨v, hv, hfalse⟩
      · -- the session is dropped now, or it stays what it is
        by_cases hid : s.id = st.id
        · rw [DropSessions.eq_of_id hs hmem hid] at hbad
          cases hended : st.ended with
          | true =>
            exact Or.inr ⟨(st.id, !st.ended), List.mem_append_right _ List.mem_cons_self,
              by rw [hended]; rfl⟩
          | false =>
            obtain ⟨t, hst, hended⟩ := DropSession.drop_of_not_last hended hbad
            rw [← DropSession.dropWith_self, ← hl.threads] at hst
            refine Or.inl ⟨t, ⟨DropSessions.mem_queue_drop.mpr ⟨st, hmem, hst⟩, ?_⟩, ?_⟩
            · rw [matching_of_sameNames matching (DropSession.sameNames_dropWith hst)]
              exact (DropSessions.matches_of_find hfind).2
            · exact fun hlast => Bool.false_ne_true (hlast.1.symm.trans hended)
        · obtain ⟨t, hst, hbad⟩ := DropSession.dropWith_of_not_last hid hbad
          rw [← hl.threads] at hst
          refine Or.inl ⟨t, ⟨DropSessions.mem_queue_drop.mpr ⟨s, hs, hst⟩, ?_⟩, hbad⟩
          rwa [matching_of_sameNames matching (DropSession.sameNames_dropWith hst)]
      · exact Or.inr ⟨v, List.mem_append_left _ hv, hfalse⟩

/-- In a threaded caster, with other workers that do nothing in between, the loop always has a
session to drop. -/
theorem keeps_of_threads (l : DropLoop)
    (hl : l.sessions.threads = true ∧ ∃ s, l.sessions.Matches matching s) :
    Loop.Keeps (dropMatchingBody matching fun _ => [])
      (fun l => l.sessions.threads = true ∧ ∃ s, l.sessions.Matches matching s)
      (fun _ => False) l := by
  obtain ⟨hthreads, s, hs, hmatch⟩ := hl
  unfold Loop.Keeps dropMatchingBody
  cases hfind : l.sessions.queue.find? fun st => matching st.type st.mountpoint with
  | none => exact List.find?_eq_none.mp hfind s hs hmatch
  | some st =>
    have hsessions : ((l.drop st).restart fun _ => []).sessions = l.sessions.drop st := by
      unfold DropLoop.restart
      simp only [List.foldl_nil, ite_self]
      rfl
    obtain ⟨t, ht⟩ := DropSession.dropWith_threads s st
    rw [← hthreads] at ht
    have hnames := DropSession.sameNames_dropWith ht
    simp only [hsessions]
    refine ⟨hthreads, t, DropSessions.mem_queue_drop.mpr ⟨s, hs, ht⟩, ?_⟩
    rwa [matching_of_sameNames matching hnames]

theorem dropsOnce_iff (matching : CString → Option CString → Bool) (sessions : DropSessions) :
    DropsOnce (fun schedule n =>
        Loop.run (dropMatchingBody matching schedule) n (.start sessions)) ↔
      (∀ s, ¬ sessions.Matches matching s) ∨
        sessions.threads = false ∧ ∀ s, sessions.Matches matching s → s.Last := by
  constructor
  · intro h
    cases hthreads : sessions.threads with
    | true =>
      refine Or.inl fun s hs => ?_
      obtain ⟨n, l, hrun, -⟩ := h fun _ => []
      exact Loop.run_of_keeps _ (fun _ => False) keeps_of_threads
        ⟨hthreads, s, hs⟩ hrun
    | false =>
      refine Or.inr ⟨rfl, fun s hs => by_contra fun hlast => ?_⟩
      obtain ⟨n, l, hrun, -, hcounted⟩ := h fun _ => []
      exact Loop.run_of_keeps _ _ (keeps_of_unsound fun _ => [])
        ⟨hthreads, rfl, Or.inl ⟨s, hs, hlast⟩⟩ hrun hcounted
  · rintro (hnone | ⟨hthreads, hlast⟩) schedule
    · refine ⟨1, .start sessions, ?_, List.nodup_nil, rfl⟩
      have hfind : sessions.queue.find? (fun st => matching st.type st.mountpoint) = none :=
        List.find?_eq_none.mpr fun s hs hmatch => hnone s ⟨hs, hmatch⟩
      simp only [Loop.run, dropMatchingBody, DropLoop.start, hfind]
    · obtain ⟨l, hrun, hpost⟩ := Loop.run_total _ _ (@round_of_sound matching schedule)
        (sessions.queue.length + 1) (.start sessions)
        ⟨hthreads, hlast, List.nodup_nil, fun _ _ => List.not_mem_nil, rfl⟩ (Nat.lt_succ_self _)
      exact ⟨_, l, hrun, hpost⟩

theorem DropSessions.exists_request_work {this : DropSessions}
    (h : ∃ s ∈ this.queue, s.request = true) (step : WorkerStep) :
    ∃ s ∈ (this.work step).queue, s.request = true := by
  obtain ⟨s, hs, hrequest⟩ := h
  obtain ⟨t, hst, hrequest⟩ := DropSession.work_of_request hrequest step
  have ht : t ∈ (this.alter (·.work step) fun _ _ => DropSession.id_work).queue :=
    List.mem_filterMap.mpr ⟨s, hs, hst⟩
  refine ⟨t, ?_, hrequest⟩
  cases step with
  | register st =>
    simp only [DropSessions.work, DropSessions.register]
    split
    · exact ht
    · exact List.mem_append_left _ ht
  | _ => exact ht

theorem DropSessions.exists_request_foldl {this : DropSessions} (steps : List WorkerStep)
    (h : ∃ s ∈ this.queue, s.request = true) :
    ∃ s ∈ (steps.foldl DropSessions.work this).queue, s.request = true := by
  induction steps generalizing this with
  | nil => exact h
  | cons step steps ih => exact ih (DropSessions.exists_request_work h step)

theorem DropSessions.threads_work (this : DropSessions) (step : WorkerStep) :
    (this.work step).threads = this.threads := by
  cases step with
  | register st =>
    simp only [DropSessions.work, DropSessions.register]
    split
    · rfl
    · rfl
  | _ => rfl

theorem DropSessions.threads_foldl (this : DropSessions) (steps : List WorkerStep) :
    (steps.foldl DropSessions.work this).threads = this.threads := by
  induction steps generalizing this with
  | nil => rfl
  | cons step steps ih => exact (ih (this.work step)).trans (this.threads_work step)

end

/-- **A request to drop every session never ends in a threaded caster.** Whatever the other workers
do, the session that asked for it is on the list at each pass. -/
theorem ntripDropById_of_request {sessions : DropSessions} (hthreads : sessions.threads = true)
    (hrequest : ∃ s ∈ sessions.queue, s.request = true) (schedule : ℕ → List WorkerStep) (n : ℕ) :
    ntripDropById 0 sessions schedule n = none := by
  cases hrun : ntripDropById 0 sessions schedule n with
  | none => rfl
  | some l =>
    rw [ntripDropById, ntripDropByIdBody_zero] at hrun
    refine absurd (Loop.run_of_keeps
      (fun l => l.sessions.threads = true ∧ ∃ s ∈ l.sessions.queue, s.request = true)
      (fun _ => False) ?_ ⟨hthreads, hrequest⟩ hrun) not_false
    rintro l ⟨hthreads, s, hs, hrequest⟩
    unfold Loop.Keeps dropMatchingBody
    cases hfind : l.sessions.queue.find? fun _ => true with
    | none => exact List.find?_eq_none.mp hfind s hs rfl
    | some st =>
      have hdrop : ∃ t ∈ (l.sessions.drop st).queue, t.request = true := by
        obtain ⟨t, ht⟩ := DropSession.dropWith_threads s st
        have hnames := DropSession.sameNames_dropWith ht
        rw [← hthreads] at ht
        exact ⟨t, DropSessions.mem_queue_drop.mpr ⟨s, hs, ht⟩, hnames.2.2.2.trans hrequest⟩
      have hsessions : ((l.drop st).restart schedule).sessions =
          (schedule (l.round + 1)).foldl DropSessions.work (l.sessions.drop st) := if_pos hthreads
      simp only [hsessions]
      exact ⟨(DropSessions.threads_foldl _ _).trans hthreads,
        DropSessions.exists_request_foldl _ hdrop⟩

/-- **When dropping many sessions ends and counts each once.** No session matches, or there are no
threads, and the loop has the last reference to each session that matches. -/
theorem ntripDropById_and_dropSourceConnections (sessions : DropSessions) :
    (DropsOnce (ntripDropById 0 sessions) ↔
      sessions.queue = [] ∨ sessions.threads = false ∧ ∀ s ∈ sessions.queue, s.Last) ∧
    ∀ mountpoint, DropsOnce (dropSourceConnections mountpoint sessions) ↔
      (∀ s ∈ sessions.queue, s.type = cstr "source" → s.mountpoint ≠ some mountpoint) ∨
        sessions.threads = false ∧ ∀ s ∈ sessions.queue, s.type = cstr "source" →
          s.mountpoint = some mountpoint → s.Last := by
  refine ⟨?_, fun mountpoint => ?_⟩
  · have h := dropsOnce_iff (fun _ _ => true) sessions
    simp only [← ntripDropByIdBody_zero] at h
    refine h.trans (or_congr ?_ (and_congr_right fun _ => ?_))
    · rw [List.eq_nil_iff_forall_not_mem]
      exact forall_congr' fun s => not_congr ⟨fun hs => hs.1, fun hs => ⟨hs, rfl⟩⟩
    · exact forall_congr' fun s => ⟨fun hlast hs => hlast ⟨hs, rfl⟩, fun hlast hs => hlast hs.1⟩
  · have h := dropsOnce_iff (fun type mountpoint' =>
      type = cstr "source" ∧ mountpoint' = some mountpoint) sessions
    refine h.trans (or_congr (forall_congr' fun s => ?_)
      (and_congr_right fun _ => forall_congr' fun s => ?_))
    · exact ⟨fun hnone hs htype hmountpoint => hnone ⟨hs, decide_eq_true ⟨htype, hmountpoint⟩⟩,
        fun hnone hs => hnone hs.1 (of_decide_eq_true hs.2).1 (of_decide_eq_true hs.2).2⟩
    · exact ⟨fun hlast hs htype hmountpoint => hlast ⟨hs, decide_eq_true ⟨htype, hmountpoint⟩⟩,
        fun hlast hs => hlast hs.1 (of_decide_eq_true hs.2).1 (of_decide_eq_true hs.2).2⟩

/-- The session of an administrator who asks for every session to be dropped. -/
def adminSession : DropSession where
  id := 1
  type := cstr "adm"
  mountpoint := none
  ended := false
  task := false
  request := true
  refcnt := 2
  ownLivesource := none
  subscription := none
  counted := Nat.le_refl 2
  served := fun _ => rfl

/-- A source, to which nothing has a reference but itself. -/
def sourceSession : DropSession where
  id := 2
  type := cstr "source"
  mountpoint := some (cstr "M")
  ended := false
  task := false
  request := false
  refcnt := 1
  ownLivesource := some 1
  subscription := none
  counted := Nat.le_refl 1
  served := fun _ => rfl

def threadedSessions : DropSessions where
  threads := true
  queue := [adminSession, sourceSession]
  nodup := by decide

/-- The request never ends, whatever the other workers do, and neither does the removal of the
source, if they do nothing. -/
theorem not_dropsOnce_threadedSessions :
    (∀ schedule n, ntripDropById 0 threadedSessions schedule n = none) ∧
      ¬ DropsOnce (ntripDropById 0 threadedSessions) ∧
      ¬ DropsOnce (dropSourceConnections (cstr "M") threadedSessions) := by
  have hnone := @ntripDropById_of_request threadedSessions rfl
    ⟨adminSession, List.mem_cons_self, rfl⟩
  refine ⟨hnone, fun h => ?_, fun h => ?_⟩
  · obtain ⟨n, l, hrun, -⟩ := h fun _ => []
    exact Option.some_ne_none l (hrun.symm.trans (hnone _ n))
  · rcases (dropsOnce_iff _ threadedSessions).mp h with h | ⟨h, -⟩
    · refine h sourceSession ⟨List.mem_cons_of_mem _ List.mem_cons_self, by decide⟩
    · exact Bool.false_ne_true h.symm

end ChilopodCaster
