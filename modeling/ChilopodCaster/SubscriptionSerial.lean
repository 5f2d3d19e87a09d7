import ChilopodCaster.SubscriptionSound
import Mathlib.Data.Fintype.Basic

/-!
# Sessions that are served by one worker at a time

A session of a mountpoint that is not virtual asks for it once, so that its only job finds it
without a subscription. A session of a virtual mountpoint may have several jobs at the same time.
Lists, counters and pointers stay consistent in every run in which a worker begins to work on the
subscription of a session only if no other worker is at it.

## Main definitions

* `Subscriptions.SoundAsks` — what holds of the jobs
* `Subscriptions.Serial` — the steps that begin work on a session no other worker is at
* `Subscriptions.Consistent` — what the lists, counters and pointers have to satisfy

## Main results

* `Subscriptions.Invariant.step` — every such step keeps the invariant
* `Subscriptions.serial_consistent` — consistency, in every run of such steps
-/

namespace ChilopodCaster

variable {W S L M : Type}

/-- The session that asks for a mountpoint that is not virtual, by a job. -/
def SubscribeJob.asks : SubscribeJob S L → Option S
  | .livesourceAddSubscriber st _ => some st
  | _ => none

/-- The session that is to be moved, by a job. -/
def SubscribeJob.switches : SubscribeJob S L → Option S
  | .redistributeSwitchSource st _ => some st
  | _ => none

namespace SubscribePc

/-- The session whose job `livesource_add_subscriber` is about to be queued. -/
def asks : SubscribePc S L → Option S
  | .found job => job.asks
  | _ => none

/-- The session that is being moved. -/
def switches : SubscribePc S L → Option S
  | .found job => job.switches
  | .switching st _ => some st
  | .removing st _ (some _) => some st
  | _ => none

/-- The session that is being subscribed. -/
def subscribes : SubscribePc S L → Option S
  | .adding st _ _ => some st
  | .inserting sub => some sub.ntripState
  | _ => none

end SubscribePc

namespace Subscriptions

/-- The session is subscribed, or is being subscribed. -/
def Busy (this : Subscriptions W S L M) (st : S) : Prop :=
  this.subscription st ≠ none ∨ ∃ w, (this.pc w).subscribes = some st

variable [DecidableEq S]

/-- What holds of the jobs: a session of a mountpoint that is not virtual asks for it once, and only
sessions of virtual mountpoints are moved. -/
structure SoundAsks (sourceVirtual : S → Bool) (this : Subscriptions W S L M) : Prop where
  once : ∀ st, (this.jobs.filterMap SubscribeJob.asks).count st ≤ 1
  queued : ∀ st ∈ this.jobs.filterMap SubscribeJob.asks, ∀ w, (this.pc w).asks ≠ some st
  found : ∀ w w' st, (this.pc w).asks = some st → (this.pc w').asks = some st → w' = w
  waits : ∀ st, (st ∈ this.jobs.filterMap SubscribeJob.asks ∨ ∃ w, (this.pc w).asks = some st) →
    sourceVirtual st = false ∧ this.asked st = true ∧ ¬ this.Busy st
  fresh : ∀ st, sourceVirtual st = false → this.asked st = false → ¬ this.Busy st
  queuedSwitch : ∀ st ∈ this.jobs.filterMap SubscribeJob.switches, sourceVirtual st = true
  switches : ∀ w st, (this.pc w).switches = some st → sourceVirtual st = true

variable {sourceVirtual : S → Bool} {this that : Subscriptions W S L M} {w : W} {l : L} {st : S}

theorem soundAsks_new : (new W S L M).SoundAsks sourceVirtual where
  once st := Nat.zero_le 1
  queued st hst := by simp [new] at hst
  found w w' st hw := by simp [new, SubscribePc.asks] at hw
  waits st hst := by simp [new, SubscribePc.asks] at hst
  fresh st _ _ := by simp [Busy, new, SubscribePc.subscribes]
  queuedSwitch st hst := by simp [new] at hst
  switches w st hw := by simp [new, SubscribePc.switches] at hw

/-! ### Frame lemmas -/

/-- Fewer sessions are busy, and nothing is asked for that was not. -/
theorem SoundAsks.mono (h : this.SoundAsks sourceVirtual)
    (hjobs : that.jobs.Sublist this.jobs) (hasked : that.asked = this.asked)
    (hasks : ∀ w st, (that.pc w).asks = some st → (this.pc w).asks = some st)
    (hbusy : ∀ st, sourceVirtual st = false → that.Busy st → this.Busy st)
    (hswitches : ∀ w st, (that.pc w).switches = some st → sourceVirtual st = true) :
    that.SoundAsks sourceVirtual := by
  have hsub := hjobs.filterMap SubscribeJob.asks
  constructor
  · intro st
    exact Nat.le_trans (hsub.count_le st) (h.once st)
  · intro st hst w hw
    exact h.queued st (hsub.subset hst) w (hasks w st hw)
  · intro w w' st hw hw'
    exact h.found w w' st (hasks w st hw) (hasks w' st hw')
  · intro st hst
    have hthis : st ∈ this.jobs.filterMap SubscribeJob.asks ∨ ∃ w, (this.pc w).asks = some st :=
      hst.imp (fun hmem => hsub.subset hmem) fun ⟨w, hw⟩ => ⟨w, hasks w st hw⟩
    obtain ⟨hvirt, hask, hnot⟩ := h.waits st hthis
    rw [hasked]
    exact ⟨hvirt, hask, fun hb => hnot (hbusy st hvirt hb)⟩
  · intro st hvirt hask hb
    rw [hasked] at hask
    exact h.fresh st hvirt hask (hbusy st hvirt hb)
  · intro st hst
    exact h.queuedSwitch st ((hjobs.filterMap SubscribeJob.switches).subset hst)
  · exact hswitches

variable [DecidableEq W]

/-- A worker moves on, and does not ask for anything. -/
theorem SoundAsks.goto (h : this.SoundAsks sourceVirtual) {pc : SubscribePc S L}
    (hpc : that.pc = Function.update this.pc w pc) (hjobs : that.jobs.Sublist this.jobs)
    (hasked : that.asked = this.asked) (hasks : pc.asks = none)
    (hsubscription : ∀ st, that.subscription st ≠ none →
      this.subscription st ≠ none ∨ (this.pc w).subscribes = some st)
    (hsubscribes : ∀ st, pc.subscribes = some st →
      (this.pc w).subscribes = some st ∨ sourceVirtual st = true)
    (hswitches : ∀ st, pc.switches = some st → sourceVirtual st = true) :
    that.SoundAsks sourceVirtual := by
  have hmove (w' : W) : that.pc w' = if w' = w then pc else this.pc w' := by
    rw [hpc]
    exact Function.update_apply this.pc w pc w'
  refine h.mono hjobs hasked (fun w' st hw' => ?_) (fun st hvirt hb => ?_) fun w' st hw' => ?_
  · rw [hmove] at hw'
    split at hw'
    · rw [hasks] at hw'
      contradiction
    · exact hw'
  · rcases hb with hsub | ⟨w', hw'⟩
    · exact (hsubscription st hsub).imp_right fun hw => ⟨w, hw⟩
    · rw [hmove] at hw'
      split at hw'
      · rcases hsubscribes st hw' with hw | hvirt'
        · exact .inr ⟨w, hw⟩
        · rw [hvirt] at hvirt'
          contradiction
      · exact .inr ⟨w', hw'⟩
  · rw [hmove] at hw'
    split at hw'
    · exact hswitches st hw'
    · exact h.switches w' st hw'

omit [DecidableEq W] in
theorem SoundAsks.prunes (h : this.SoundAsks sourceVirtual) (hprunes : this.Prunes that l) :
    that.SoundAsks sourceVirtual := by
  refine h.mono (by rw [hprunes.jobs]) hprunes.asked ?_ ?_ ?_
  · rw [hprunes.pc]
    exact fun _ _ => id
  · rintro st - (hsub | hw)
    · rcases hprunes.subscription st with heq | hnone
      · exact .inl (heq ▸ hsub)
      · exact absurd hnone hsub
    · rw [hprunes.pc] at hw
      exact .inr hw
  · rw [hprunes.pc]
    exact h.switches

/-! ### Steps -/

/-- The job that was found is queued. -/
theorem SoundAsks.append (h : this.SoundAsks sourceVirtual) {job : SubscribeJob S L}
    (hpc : this.pc w = .found job) :
    SoundAsks sourceVirtual { this.goto w .idle with jobs := this.jobs ++ [job] } := by
  have hasks {w' : W} {st : S} (hw' : ((this.goto w .idle).pc w').asks = some st) :
      w' ≠ w ∧ (this.pc w').asks = some st := by
    rw [goto_pc] at hw'
    split at hw'
    · contradiction
    · next hne => exact ⟨hne, hw'⟩
  have hmem {st : S} : st ∈ (this.jobs ++ [job]).filterMap SubscribeJob.asks ↔
      st ∈ this.jobs.filterMap SubscribeJob.asks ∨ (this.pc w).asks = some st := by
    rw [List.filterMap_append, List.mem_append, List.mem_filterMap (l := [job]), hpc]
    simp [SubscribePc.asks]
  have hbusy {st : S} (hb : Busy { this.goto w .idle with jobs := this.jobs ++ [job] } st) :
      this.Busy st := by
    refine hb.imp_right fun ⟨w', hw'⟩ => ⟨w', ?_⟩
    dsimp only at hw'
    rw [goto_pc] at hw'
    split at hw'
    · contradiction
    · exact hw'
  constructor
  · intro st
    dsimp only
    rw [List.filterMap_append, List.count_append]
    have hone : ([job].filterMap SubscribeJob.asks).count st ≤ 1 :=
      Nat.le_trans List.count_le_length (List.length_filterMap_le _ _)
    by_cases hjob : (this.pc w).asks = some st
    · have hzero := List.count_eq_zero.mpr fun hst => h.queued st hst w hjob
      omega
    · have hzero : ([job].filterMap SubscribeJob.asks).count st = 0 := by
        refine List.count_eq_zero.mpr fun hst => hjob ?_
        obtain ⟨job', hjob', hst⟩ := List.mem_filterMap.mp hst
        rw [hpc, ← List.mem_singleton.mp hjob']
        exact hst
      have := h.once st
      omega
  · intro st hst w' hw'
    obtain ⟨hne, hw'⟩ := hasks hw'
    rcases hmem.mp hst with hst | hw
    · exact h.queued st hst w' hw'
    · exact hne (h.found w w' st hw hw')
  · intro w₁ w₂ st hw₁ hw₂
    exact h.found w₁ w₂ st (hasks hw₁).2 (hasks hw₂).2
  · intro st hst
    have hthis : st ∈ this.jobs.filterMap SubscribeJob.asks ∨ ∃ w, (this.pc w).asks = some st := by
      rcases hst with hst | ⟨w', hw'⟩
      · exact (hmem.mp hst).imp_right fun hw => ⟨w, hw⟩
      · exact .inr ⟨w', (hasks hw').2⟩
    obtain ⟨hvirt, hask, hnot⟩ := h.waits st hthis
    exact ⟨hvirt, hask, fun hb => hnot (hbusy hb)⟩
  · intro st hvirt hask hb
    exact h.fresh st hvirt hask (hbusy hb)
  · intro st hst
    dsimp only at hst
    rw [List.filterMap_append, List.mem_append] at hst
    rcases hst with hst | hst
    · exact h.queuedSwitch st hst
    · obtain ⟨job', hjob', hst⟩ := List.mem_filterMap.mp hst
      refine h.switches w st ?_
      rw [hpc, ← List.mem_singleton.mp hjob']
      exact hst
  · intro w' st hw'
    dsimp only at hw'
    rw [goto_pc] at hw'
    split at hw'
    · contradiction
    · exact h.switches w' st hw'

/-- A worker begins the only job of a session that has asked for its mountpoint. -/
theorem SoundAsks.take (h : this.SoundAsks sourceVirtual) {i : ℕ}
    (hjob : this.jobs[i]? = some (.livesourceAddSubscriber st l)) :
    SoundAsks sourceVirtual { this.goto w (.adding st l false) with
      jobs := this.jobs.eraseIdx i } := by
  have hasks {w' : W} {st' : S}
      (hw' : ((this.goto w (.adding st l false)).pc w').asks = some st') :
      (this.pc w').asks = some st' := by
    rw [goto_pc] at hw'
    split at hw'
    · contradiction
    · exact hw'
  have hmem : st ∈ this.jobs.filterMap SubscribeJob.asks :=
    List.mem_filterMap.mpr ⟨_, List.mem_of_getElem? hjob, rfl⟩
  have hsub := (List.eraseIdx_sublist this.jobs i).filterMap SubscribeJob.asks
  have hgone : st ∉ (this.jobs.eraseIdx i).filterMap SubscribeJob.asks := by
    have hcount := Holdings.count_filterMap SubscribeJob.asks hjob st
    have honce := h.once st
    rw [SubscribeJob.asks, Option.toList_some, List.count_singleton_self] at hcount
    exact List.count_eq_zero.mp (by omega)
  have hbusy {st' : S} (hne : st' ≠ st) (hb : Busy { this.goto w (.adding st l false) with
      jobs := this.jobs.eraseIdx i } st') : this.Busy st' := by
    refine hb.imp_right fun ⟨w', hw'⟩ => ⟨w', ?_⟩
    dsimp only at hw'
    rw [goto_pc] at hw'
    split at hw'
    · exact absurd (Option.some.inj hw').symm hne
    · exact hw'
  constructor
  · intro st'
    exact Nat.le_trans (hsub.count_le st') (h.once st')
  · intro st' hst' w' hw'
    exact h.queued st' (hsub.subset hst') w' (hasks hw')
  · intro w₁ w₂ st' hw₁ hw₂
    exact h.found w₁ w₂ st' (hasks hw₁) (hasks hw₂)
  · intro st' hst'
    have hne : st' ≠ st := by
      rintro rfl
      rcases hst' with hst' | ⟨w', hw'⟩
      · exact hgone hst'
      · exact h.queued st' hmem w' (hasks hw')
    obtain ⟨hvirt, hask, hnot⟩ := h.waits st'
      (hst'.imp (fun hst' => hsub.subset hst') fun ⟨w', hw'⟩ => ⟨w', hasks hw'⟩)
    exact ⟨hvirt, hask, fun hb => hnot (hbusy hne hb)⟩
  · intro st' hvirt hask hb
    refine h.fresh st' hvirt hask (hbusy ?_ hb)
    rintro rfl
    exact absurd ((h.waits st' (.inl hmem)).2.1.symm.trans hask) Bool.true_eq_false.mp
  · intro st' hst'
    exact h.queuedSwitch st'
      (((List.eraseIdx_sublist this.jobs i).filterMap SubscribeJob.switches).subset hst')
  · intro w' st' hw'
    dsimp only at hw'
    rw [goto_pc] at hw'
    split at hw'
    · contradiction
    · exact h.switches w' st' hw'

omit [DecidableEq W] in
/-- A session is recorded to have asked; one of a virtual mountpoint may do so again. -/
theorem SoundAsks.ask (h : this.SoundAsks sourceVirtual) (st : S) :
    SoundAsks sourceVirtual { this with asked := Function.update this.asked st true } := by
  refine ⟨h.once, h.queued, h.found, fun st' hst' => ?_, fun st' hvirt hask => ?_, h.queuedSwitch,
    h.switches⟩
  · obtain ⟨hvirt, hask, hnot⟩ := h.waits st' hst'
    refine ⟨hvirt, ?_, hnot⟩
    dsimp only
    rw [Function.update_apply]
    split
    · rfl
    · exact hask
  · dsimp only at hask
    rw [Function.update_apply] at hask
    split at hask
    · contradiction
    · exact h.fresh st' hvirt hask

/-- A session asks for a mountpoint that is not virtual, and a livesource is found. -/
theorem SoundAsks.find (h : this.SoundAsks sourceVirtual) (hvirt : sourceVirtual st = false)
    (hask : this.asked st = false) (l : L) :
    SoundAsks sourceVirtual { this.goto w (.found (.livesourceAddSubscriber st l)) with
      asked := Function.update this.asked st true } := by
  have hasks {w' : W} {st' : S}
      (hw' : ((this.goto w (.found (.livesourceAddSubscriber st l))).pc w').asks = some st') :
      (w' = w ∧ st' = st) ∨ (this.pc w').asks = some st' := by
    rw [goto_pc] at hw'
    split at hw'
    · next heq => exact .inl ⟨heq, (Option.some.inj hw').symm⟩
    · exact .inr hw'
  have hbusy {st' : S} (hb : Busy { this.goto w (.found (.livesourceAddSubscriber st l)) with
      asked := Function.update this.asked st true } st') : this.Busy st' := by
    refine hb.imp_right fun ⟨w', hw'⟩ => ⟨w', ?_⟩
    dsimp only at hw'
    rw [goto_pc] at hw'
    split at hw'
    · contradiction
    · exact hw'
  -- the session was not waiting, since it had not asked
  have hnot : ¬ (st ∈ this.jobs.filterMap SubscribeJob.asks ∨ ∃ w, (this.pc w).asks = some st) := by
    intro hst
    rw [(h.waits st hst).2.1] at hask
    contradiction
  constructor
  · exact h.once
  · intro st' hst' w' hw'
    rcases hasks hw' with ⟨-, rfl⟩ | hw'
    · exact hnot (.inl hst')
    · exact h.queued st' hst' w' hw'
  · intro w₁ w₂ st' hw₁ hw₂
    rcases hasks hw₁ with ⟨h₁, hst⟩ | hold₁ <;> rcases hasks hw₂ with ⟨h₂, hst'⟩ | hold₂
    · rw [h₁, h₂]
    · exact absurd (.inr ⟨w₂, hst ▸ hold₂⟩) hnot
    · exact absurd (.inr ⟨w₁, hst' ▸ hold₁⟩) hnot
    · exact h.found w₁ w₂ st' hold₁ hold₂
  · intro st' hst'
    by_cases heq : st' = st
    · obtain rfl := heq
      exact ⟨hvirt, Function.update_self _ _ _, fun hb => h.fresh st' hvirt hask (hbusy hb)⟩
    · have hthis : st' ∈ this.jobs.filterMap SubscribeJob.asks ∨
          ∃ w, (this.pc w).asks = some st' :=
        hst'.imp_right fun ⟨w', hw'⟩ => ⟨w', (hasks hw').resolve_left fun h => heq h.2⟩
      obtain ⟨hvirt', hask', hnot'⟩ := h.waits st' hthis
      exact ⟨hvirt', (Function.update_of_ne heq _ _).trans hask', fun hb => hnot' (hbusy hb)⟩
  · intro st' hvirt' hask' hb
    dsimp only at hask'
    rw [Function.update_apply] at hask'
    split at hask'
    · contradiction
    · exact h.fresh st' hvirt' hask' (hbusy hb)
  · exact h.queuedSwitch
  · intro w' st' hw'
    dsimp only at hw'
    rw [goto_pc] at hw'
    split at hw'
    · contradiction
    · exact h.switches w' st' hw'

variable [DecidableEq L] [DecidableEq M] {mountpoint : L → M} {memory : Bool}

theorem SoundAsks.work (h : this.SoundAsks sourceVirtual) (hsound : this.Sound)
    (hwork : this.work mountpoint w memory = some that) : that.SoundAsks sourceVirtual := by
  have hsame (st : S) (hne : this.subscription st ≠ none) :
      this.subscription st ≠ none ∨ (this.pc w).subscribes = some st := .inl hne
  have hnever {st : S} {p : Prop} (hnone : (none : Option S) = some st) : p := by contradiction
  -- a worker that moves on without a change
  have hgoto {pc : SubscribePc S L} (hasks : pc.asks = none)
      (hsubscribes : ∀ st, pc.subscribes = some st →
        (this.pc w).subscribes = some st ∨ sourceVirtual st = true)
      (hswitches : ∀ st, pc.switches = some st → sourceVirtual st = true) :
      (this.goto w pc).SoundAsks sourceVirtual :=
    h.goto rfl (List.Sublist.refl _) rfl hasks hsame hsubscribes hswitches
  have hidle : (this.goto w .idle).SoundAsks sourceVirtual :=
    hgoto rfl (fun _ => hnever) fun _ => hnever
  rw [Subscriptions.work] at hwork
  split at hwork
  · contradiction
  · next job hpc =>
    obtain rfl := Option.some.inj hwork
    split
    · exact h.append hpc
    · rw [List.append_nil]
      exact hidle
  · next st l virt hpc =>
    split at hwork
    · obtain rfl := Option.some.inj hwork
      exact hidle
    · obtain rfl := Option.some.inj hwork
      refine h.goto rfl (List.Sublist.refl _) rfl rfl (fun st' hst' => ?_) ?_ fun _ => hnever
      · dsimp only at hst'
        rw [Function.update_apply] at hst'
        split at hst'
        · next heq => exact .inr (by rw [hpc, heq]; rfl)
        · exact .inl hst'
      · intro st' hst'
        exact .inl (by rw [hpc]; exact hst')
  · next sub hpc =>
    obtain rfl := Option.some.inj hwork
    exact h.goto rfl (List.Sublist.refl _) rfl rfl hsame (fun _ => hnever) fun _ => hnever
  · next st l hpc =>
    have hvirt : sourceVirtual st = true := h.switches w st (by rw [hpc]; rfl)
    split at hwork
    · obtain rfl := Option.some.inj hwork
      refine hgoto rfl ?_ fun _ => hnever
      rintro _ ⟨⟩
      exact .inr hvirt
    · obtain rfl := Option.some.inj hwork
      refine hgoto rfl (fun _ => hnever) ?_
      rintro _ ⟨⟩
      exact hvirt
  · next st hpc =>
    split at hwork
    · obtain rfl := Option.some.inj hwork
      exact hidle
    · obtain rfl := Option.some.inj hwork
      exact hgoto rfl (fun _ => hnever) fun _ => hnever
  · next st locked hpc =>
    obtain rfl := Option.some.inj hwork
    have hprunes := (hsound.delSubscriber hpc).2.1
    exact (h.prunes hprunes).goto rfl (List.Sublist.refl _) rfl rfl (fun _ => .inl)
      (fun _ => hnever) fun _ => hnever
  · next st locked l hpc =>
    obtain rfl := Option.some.inj hwork
    have hvirt : sourceVirtual st = true := h.switches w st (by rw [hpc]; rfl)
    have hprunes := (hsound.delSubscriber hpc).2.1
    refine (h.prunes hprunes).goto rfl (List.Sublist.refl _) rfl rfl (fun _ => .inl) ?_
      fun _ => hnever
    rintro _ ⟨⟩
    exact .inr hvirt
  · next l hpc =>
    split at hwork
    · obtain rfl := Option.some.inj hwork
      exact h.goto rfl (List.Sublist.refl _) rfl rfl hsame (fun _ => hnever) fun _ => hnever
    · contradiction
  · next l hpc =>
    obtain rfl := Option.some.inj hwork
    have hprunes := (hsound.livesourceEnd l).2.1
    exact (h.prunes hprunes).goto rfl (List.Sublist.refl _) rfl rfl (fun _ => .inl)
      (fun _ => hnever) fun _ => hnever

/-! ### Runs -/

/-- No worker is at the subscription of the session. -/
def Alone (this : Subscriptions W S L M) (st : S) : Prop := ∀ w, (this.pc w).session ≠ some st

/-- A worker begins to work on the subscription of a session only if no other worker is at it. -/
def Serial (this : Subscriptions W S L M) : SubscribeStep W S L → Prop
  | .take _ i _ => ∀ job ∈ this.jobs[i]?, ∀ st ∈ job.session, this.Alone st
  | .livesourceDelSubscriber _ st => this.Alone st
  | _ => True

/-- The invariant of runs of such steps. -/
structure Invariant (sourceVirtual : S → Bool) (this : Subscriptions W S L M) : Prop where
  sound : this.Sound
  asks : this.SoundAsks sourceVirtual

omit [DecidableEq W] [DecidableEq L] [DecidableEq M] in
theorem invariant_new : (new W S L M).Invariant sourceVirtual := ⟨sound_new, soundAsks_new⟩

omit [DecidableEq L] [DecidableEq M] in
/-- A worker begins a job. -/
theorem Invariant.take (h : this.Invariant sourceVirtual) {i : ℕ} {job : SubscribeJob S L}
    (hpc : this.pc w = .idle) (hjob : this.jobs[i]? = some job)
    (halone : ∀ st ∈ job.session, this.Alone st) :
    Invariant sourceVirtual { this.goto w (begin memory job) with
      jobs := this.jobs.eraseIdx i } := by
  have hold : (this.pc w).inserts = none := by rw [hpc]; rfl
  have hmem := List.mem_of_getElem? hjob
  have hsub := List.eraseIdx_sublist this.jobs i
  cases job with
  | livesourceAddSubscriber st l =>
    have hnot := (h.asks.waits st (.inl (List.mem_filterMap.mpr ⟨_, hmem, rfl⟩))).2.2
    have hadding : (this.goto w (.adding st l false)).Sound := by
      refine h.sound.goto hold rfl ?_ ?_ ?_
      · rintro _ ⟨⟩ w' -
        exact halone st rfl w'
      · rintro _ _ _ ⟨⟩
        exact not_not.mp fun hsome => hnot (.inl hsome)
      · rintro _ _ _ ⟨⟩
    exact ⟨hadding.congr rfl rfl rfl rfl rfl, h.asks.take hjob⟩
  | redistributeSwitchSource st l =>
    have hvirt := h.asks.queuedSwitch st (List.mem_filterMap.mpr ⟨_, hmem, rfl⟩)
    rw [begin]
    split
    · have hswitching : (this.goto w (.switching st l)).Sound := by
        refine h.sound.goto hold rfl ?_ ?_ ?_
        · rintro _ ⟨⟩ w' -
          exact halone st rfl w'
        · rintro _ _ _ ⟨⟩
        · rintro _ _ _ ⟨⟩
      refine ⟨hswitching.congr rfl rfl rfl rfl rfl, ?_⟩
      refine h.asks.goto rfl hsub rfl rfl (fun _ => .inl) ?_ ?_
      · rintro _ ⟨⟩
      · rintro _ ⟨⟩
        exact hvirt
    · have hidle : (this.goto w .idle).Sound := h.sound.goto_free hold rfl
      refine ⟨hidle.congr rfl rfl rfl rfl rfl, ?_⟩
      refine h.asks.goto rfl hsub rfl rfl (fun _ => .inl) ?_ ?_
      · rintro _ ⟨⟩
      · rintro _ ⟨⟩
  | livesourceDel l =>
    have hfree : (this.goto w (.unregistering l)).Sound := h.sound.goto_free hold rfl
    refine ⟨hfree.congr rfl rfl rfl rfl rfl, ?_⟩
    refine h.asks.goto rfl hsub rfl rfl (fun _ => .inl) ?_ ?_
    · rintro _ ⟨⟩
    · rintro _ ⟨⟩

omit [DecidableEq L] [DecidableEq M] in
/-- A livesource is looked up for a session. -/
theorem Invariant.find (h : this.Invariant sourceVirtual) (hpc : this.pc w = .idle)
    (hask : sourceVirtual st = true ∨ this.asked st = false) (l : L) (made : L → Bool)
    (hash : M → Option L) :
    Invariant sourceVirtual { this.goto w (.found (if sourceVirtual st then
        .redistributeSwitchSource st l else .livesourceAddSubscriber st l)) with
      asked := Function.update this.asked st true
      made := made
      hash := hash } := by
  have hfound (job : SubscribeJob S L) : (this.goto w (.found job)).Sound :=
    h.sound.goto_free (by rw [hpc]; rfl) rfl
  refine ⟨(hfound _).congr rfl rfl rfl rfl rfl, ?_⟩
  cases hvirt : sourceVirtual st with
  | false =>
    rw [if_neg Bool.false_ne_true]
    have hfind := h.asks.find (w := w) hvirt (hask.resolve_left (by rw [hvirt]; decide)) l
    exact hfind.mono (List.Sublist.refl _) rfl (fun _ _ => id) (fun _ _ => id) hfind.switches
  | true =>
    rw [if_pos rfl]
    refine (h.asks.ask st).goto rfl (List.Sublist.refl _) rfl rfl (fun _ => .inl) ?_ ?_
    · rintro _ ⟨⟩
    · rintro _ ⟨⟩
      exact hvirt

omit [DecidableEq W] [DecidableEq L] [DecidableEq M] in
/-- The table of livesources, the states of sessions and the lengths of buffers have no part in the
invariant. -/
theorem Invariant.congr (h : this.Invariant sourceVirtual)
    (hsubscription : that.subscription = this.subscription)
    (hsubscribers : that.subscribers = this.subscribers) (hnsubs : that.nsubs = this.nsubs)
    (hpc : that.pc = this.pc) (hfailed : that.failed = this.failed)
    (hjobs : that.jobs = this.jobs) (hasked : that.asked = this.asked) :
    that.Invariant sourceVirtual := by
  refine ⟨h.sound.congr hsubscription hsubscribers hnsubs hpc hfailed, ?_⟩
  refine h.asks.mono (by rw [hjobs]) hasked (by rw [hpc]; exact fun _ _ => id) ?_ ?_
  · intro st _ hb
    rw [Busy, hsubscription, hpc] at hb
    exact hb
  · rw [hpc]
    exact h.asks.switches

/-- **Every such step keeps the invariant.** -/
theorem Invariant.step {a : SubscribeStep W S L} (h : this.Invariant sourceVirtual)
    (hserial : this.Serial a) (hstep : this.step sourceVirtual mountpoint a = some that) :
    that.Invariant sourceVirtual := by
  cases a with
  | livesourceConnected l =>
    rw [Subscriptions.step] at hstep
    split at hstep
    · obtain rfl := Option.some.inj hstep
      exact h.congr rfl rfl rfl rfl rfl rfl rfl
    · contradiction
  | livesourceFind w st l create =>
    rw [Subscriptions.step] at hstep
    split at hstep
    · next hguard =>
      obtain rfl := Option.some.inj hstep
      exact h.find hguard.1 hguard.2.1 l _ _
    · contradiction
  | ntripUnregisterLivesource l =>
    rw [Subscriptions.step] at hstep
    split at hstep
    · obtain rfl := Option.some.inj hstep
      refine ⟨h.sound.congr rfl rfl rfl rfl rfl, ?_⟩
      have hasks : (this.jobs ++ [SubscribeJob.livesourceDel l]).filterMap SubscribeJob.asks =
          this.jobs.filterMap SubscribeJob.asks := by
        rw [List.filterMap_append]
        exact List.append_nil _
      have hswitches : (this.jobs ++ [SubscribeJob.livesourceDel l]).filterMap
          SubscribeJob.switches = this.jobs.filterMap SubscribeJob.switches := by
        rw [List.filterMap_append]
        exact List.append_nil _
      constructor
      · rw [hasks]
        exact h.asks.once
      · rw [hasks]
        exact h.asks.queued
      · exact h.asks.found
      · rw [hasks]
        exact h.asks.waits
      · exact h.asks.fresh
      · rw [hswitches]
        exact h.asks.queuedSwitch
      · exact h.asks.switches
    · contradiction
  | take w i memory =>
    rw [Subscriptions.step] at hstep
    split at hstep
    · next job hpc hjob =>
      obtain rfl := Option.some.inj hstep
      exact h.take hpc hjob (hserial job hjob)
    · contradiction
  | livesourceDelSubscriber w st =>
    rw [Subscriptions.step] at hstep
    split at hstep
    · next hpc =>
      obtain rfl := Option.some.inj hstep
      constructor
      · refine h.sound.goto (by rw [hpc]; rfl) rfl ?_ ?_ ?_
        · rintro _ ⟨⟩ w' -
          exact hserial w'
        · rintro _ _ _ ⟨⟩
        · rintro _ _ _ ⟨⟩
      · refine h.asks.goto rfl (List.Sublist.refl _) rfl rfl (fun _ => .inl) ?_ ?_
        · rintro _ ⟨⟩
        · rintro _ ⟨⟩
    · contradiction
  | work w memory => exact ⟨h.sound.work hstep, h.asks.work h.sound hstep⟩
  | livesourceSendSubscribers l output backlogEvbuffer =>
    obtain rfl := Option.some.inj hstep
    obtain ⟨hsound, hprunes⟩ := h.sound.livesourceSendSubscribers l output backlogEvbuffer
    exact ⟨hsound, h.asks.prunes hprunes⟩
  | ntripDecrefEnd st =>
    obtain rfl := Option.some.inj hstep
    exact h.congr rfl rfl rfl rfl rfl rfl rfl

/-- What lists, counters and pointers have to satisfy: no assertion has failed; and when no worker
is at a subscription, the counters are right, the record a session points to is once in the list of
the livesource it names, and no other record of the session is in any list. -/
structure Consistent (this : Subscriptions W S L M) : Prop where
  assertions : this.failed = false
  nsubs : (∀ w, (this.pc w).session = none) → ∀ l, this.nsubs l = (this.subscribers l).length
  pointed : (∀ w, (this.pc w).session = none) → ∀ st sub, this.subscription st = some sub →
    sub.ntripState = st ∧ (this.subscribers sub.livesource).count sub = 1
  listed : (∀ w, (this.pc w).session = none) → ∀ l, ∀ sub ∈ this.subscribers l,
    sub.livesource = l ∧ this.subscription sub.ntripState = some sub

omit [DecidableEq W] [DecidableEq M] in
theorem Sound.consistent (h : this.Sound) : this.Consistent where
  assertions := h.failed
  nsubs _ := h.nsubs
  pointed hquiet st sub hsub := by
    obtain ⟨hst, hlist | ⟨w, hw⟩⟩ := h.subscribed st sub hsub
    · exact ⟨hst, List.count_eq_one_of_mem (h.nodup sub.livesource) hlist⟩
    · have hnone := hquiet w
      rw [hw] at hnone
      contradiction
  listed _ := h.listed

/-- **Lists, counters and pointers are consistent**, in every state of a run in which a worker
begins to work on the subscription of a session only if no other worker is at it. -/
theorem serial_consistent (h : Transition.Reachable (· = new W S L M) Serial
    (step sourceVirtual mountpoint) this) : this.Consistent := by
  have hinv : this.Invariant sourceVirtual := by
    refine h.invariant ?_ fun this a that hthis hserial hstep => hthis.step hserial hstep
    rintro _ rfl
    exact invariant_new
  exact hinv.sound.consistent

instance [Fintype W] (this : Subscriptions W S L M) (st : S) : Decidable (this.Alone st) :=
  inferInstanceAs (Decidable (∀ _, _))

instance decidableSerial [Fintype W] (this : Subscriptions W S L M) : DecidablePred this.Serial
  | .take _ i _ =>
    inferInstanceAs (Decidable (∀ job ∈ this.jobs[i]?, ∀ st ∈ job.session, this.Alone st))
  | .livesourceDelSubscriber _ st => inferInstanceAs (Decidable (this.Alone st))
  | .livesourceConnected _ => inferInstanceAs (Decidable True)
  | .livesourceFind _ _ _ _ => inferInstanceAs (Decidable True)
  | .ntripUnregisterLivesource _ => inferInstanceAs (Decidable True)
  | .work _ _ => inferInstanceAs (Decidable True)
  | .livesourceSendSubscribers _ _ _ => inferInstanceAs (Decidable True)
  | .ntripDecrefEnd _ => inferInstanceAs (Decidable True)

/-- Two livesources are there, and a session of a virtual mountpoint is sent to one, then to the
other, before a worker has run the first job. -/
def twoJobs : List (SubscribeStep Bool Unit Bool) :=
  [.livesourceConnected false, .livesourceConnected true, .livesourceFind false () false false,
    .work false true, .livesourceFind false () true false, .work false true]

/-- A worker runs the two jobs one after the other. -/
def oneAfterTheOther : List (SubscribeStep Bool Unit Bool) :=
  twoJobs ++ ([.take false 0 true, .work false true, .work false true, .work false true,
    .take false 0 true, .work false true, .work false true, .work false true, .work false true] :
      List (SubscribeStep Bool Unit Bool))

theorem serial_consistent_oneAfterTheOther :
    ∃ this : Subscriptions Bool Unit Bool Bool,
      Transition.Reachable (· = new Bool Unit Bool Bool) Serial (step (fun _ => true) id) this ∧
      this.subscription () = some ⟨1, true, (), true⟩ ∧
      (this.subscribers true).count ⟨1, true, (), true⟩ = 1 ∧ this.failed = false := by
  have hobserve : (oneAfterTheOther.foldlM (fun this a => if Serial this a then
      step (fun _ => true) id this a else none) (new Bool Unit Bool Bool)).map
        (fun this => (this.subscription (), (this.pc false).session, (this.pc true).session)) =
      some (some ⟨1, true, (), true⟩, none, none) := by
    decide
  obtain ⟨this, hrun, hthis⟩ := Option.map_eq_some_iff.mp hobserve
  simp only [Prod.mk.injEq] at hthis
  obtain ⟨hsub, hfalse, htrue⟩ := hthis
  have hreach : Transition.Reachable (· = new Bool Unit Bool Bool) Serial
      (step (fun _ => true) id) this := Transition.reachable_of_foldlM (.refl rfl) hrun
  have hconsistent := serial_consistent hreach
  refine ⟨this, hreach, hsub, (hconsistent.pointed ?_ () _ hsub).2, hconsistent.assertions⟩
  intro w
  cases w
  · exact hfalse
  · exact htrue

/-- Two workers take one job each, and both find the session without a subscription. -/
def atTheSameTime : List (SubscribeStep Bool Unit Bool) :=
  twoJobs ++ ([.take false 0 true, .take true 0 true, .work false true, .work true true,
    .work false true, .work true true] : List (SubscribeStep Bool Unit Bool))

/-- The assertion of the second worker fails. -/
theorem not_consistent_atTheSameTime :
    ¬ ∀ this : Subscriptions Bool Unit Bool Bool,
      Transition.Reachable (· = new Bool Unit Bool Bool) (fun _ _ => True)
        (step (fun _ => true) id) this → this.Consistent := by
  intro h
  have hobserve : (atTheSameTime.foldlM (fun this a => if True then
      step (fun _ => true) id this a else none) (new Bool Unit Bool Bool)).map
        (fun this => this.failed) = some true := by
    decide
  obtain ⟨this, hrun, hfailed⟩ := Option.map_eq_some_iff.mp hobserve
  have hconsistent := h this (Transition.reachable_of_foldlM (.refl rfl) hrun)
  rw [hconsistent.assertions] at hfailed
  contradiction

end Subscriptions

end ChilopodCaster
