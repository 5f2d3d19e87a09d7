import ChilopodCaster.SubscriptionSound
import Mathlib.Data.List.Perm.Basic

/-!
# The livesources that sessions are on their way to

From the lookup of a livesource until the session is in its list, the session and the livesource are
named by a job or by a worker. No step but a lookup makes a session begin such a way; and a session
that gets into a list was on its way there.

## Main definitions

* `Subscriptions.Targets`, `Subscriptions.UnderWay` — the sessions on their way
* `Subscriptions.Advances` — what steps other than a lookup do to them

## Main results

* `Subscriptions.Sound.advances_work`, `Subscriptions.advances_take` — workers advance
-/

namespace ChilopodCaster

variable {W S L M : Type}

/-- The session a job subscribes, and the livesource. -/
def SubscribeJob.target : SubscribeJob S L → Option (S × L)
  | .livesourceAddSubscriber st livesource => some (st, livesource)
  | .redistributeSwitchSource st livesource => some (st, livesource)
  | .livesourceDel _ => none

namespace SubscribePc

/-- The session a worker is about to subscribe, and the livesource. -/
def target : SubscribePc S L → Option (S × L)
  | .found job => job.target
  | .adding st livesource _ => some (st, livesource)
  | .inserting sub => some (sub.ntripState, sub.livesource)
  | .switching st livesource => some (st, livesource)
  | .removing st _ (some livesource) => some (st, livesource)
  | _ => none

/-- The livesource whose lock a worker takes in its next step. -/
def locks : SubscribePc S L → Option L
  | .inserting sub => some sub.livesource
  | .removing _ locked _ => some locked
  | .ending livesource => some livesource
  | _ => none

/-- The worker has found a livesource. -/
def isFound : SubscribePc S L → Bool
  | .found _ => true
  | _ => false

end SubscribePc

namespace Subscriptions

/-- The session is on its way to the livesource. -/
def Targets (this : Subscriptions W S L M) (st : S) (l : L) : Prop :=
  (∃ w, (this.pc w).target = some (st, l)) ∨ some (st, l) ∈ this.jobs.map SubscribeJob.target

/-- The session is on its way to a livesource. -/
def UnderWay (this : Subscriptions W S L M) (st : S) : Prop := ∃ l, this.Targets st l

/-- A step is made in which no session begins to be on its way, and lists are changed under the lock
of one livesource at most: a session in a list was on its way there, or it was in the list and is
still on its way if it was. -/
structure Advances (this that : Subscriptions W S L M) (locked : Option L) : Prop where
  targets : ∀ st l, that.Targets st l → this.Targets st l
  listed : ∀ l, ∀ np ∈ that.subscribers l, this.Targets np.ntripState l ∨
    np ∈ this.subscribers l ∧ (this.UnderWay np.ntripState → that.UnderWay np.ntripState)
  kept : ∀ l, locked ≠ some l → ∀ np ∈ this.subscribers l, np ∈ that.subscribers l

variable {this that : Subscriptions W S L M} {w : W} {st : S} {l : L} {locked : Option L}

/-- Every session is on its way to where it was. -/
theorem Advances.of_targets (htargets : ∀ st l, that.Targets st l ↔ this.Targets st l)
    (hlisted : ∀ l, ∀ np ∈ that.subscribers l, np ∈ this.subscribers l)
    (hkept : ∀ l, locked ≠ some l → ∀ np ∈ this.subscribers l, np ∈ that.subscribers l) :
    this.Advances that locked where
  targets st l := (htargets st l).mp
  listed l np hnp :=
    .inr ⟨hlisted l np hnp, fun ⟨l', hl'⟩ => ⟨l', (htargets _ l').mpr hl'⟩⟩
  kept := hkept

/-- Targets and lists are as they were. -/
theorem Advances.of_eq (hpc : that.pc = this.pc) (hjobs : that.jobs = this.jobs)
    (hsubscribers : that.subscribers = this.subscribers) : this.Advances that locked := by
  refine .of_targets ?_ ?_ ?_
  · intro st l
    rw [Targets, Targets, hpc, hjobs]
  · rw [hsubscribers]
    exact fun _ _ => id
  · rw [hsubscribers]
    exact fun _ _ _ => id

theorem Prunes.advances (h : this.Prunes that l) : this.Advances that (some l) := by
  have hsame {l' : L} (hne : l' ≠ l) := h.others l' hne
  refine .of_targets ?_ ?_ ?_
  · intro st l'
    rw [Targets, Targets, h.pc, h.jobs]
  · intro l' np hnp
    by_cases hl : l' = l
    · subst hl
      exact h.kept np hnp
    · rw [hsame hl] at hnp
      exact hnp
  · intro l' hl np hnp
    rw [hsame fun heq => hl (by rw [heq])]
    exact hnp

/-! ### Targets of one worker -/

/-- The worker or a job has the session on its way to the livesource. -/
def TargetsOf (this : Subscriptions W S L M) (w : W) (x : S × L) : Prop :=
  some x ∈ (this.pc w).target :: this.jobs.map SubscribeJob.target

theorem some_mem_none_cons {x : S × L} {xs : List (Option (S × L))} :
    some x ∈ none :: xs ↔ some x ∈ xs := by
  rw [List.mem_cons]
  exact or_iff_right (Option.some_ne_none x)

theorem targets_iff (w : W) : this.Targets st l ↔
    (∃ w', w' ≠ w ∧ (this.pc w').target = some (st, l)) ∨ this.TargetsOf w (st, l) := by
  constructor
  · rintro (⟨w', hw'⟩ | hjob)
    · by_cases hw : w' = w
      · exact .inr (List.mem_cons.mpr (.inl (hw ▸ hw'.symm)))
      · exact .inl ⟨w', hw, hw'⟩
    · exact .inr (List.mem_cons_of_mem _ hjob)
  · rintro (⟨w', -, hw'⟩ | hw)
    · exact .inl ⟨w', hw'⟩
    · rcases List.mem_cons.mp hw with hw | hjob
      · exact .inl ⟨w, hw.symm⟩
      · exact .inr hjob

variable [DecidableEq W]

/-- The other workers stay where they are. -/
theorem others_update {pc : SubscribePc S L} (hpc : that.pc = Function.update this.pc w pc) :
    (∃ w', w' ≠ w ∧ (that.pc w').target = some (st, l)) ↔
      ∃ w', w' ≠ w ∧ (this.pc w').target = some (st, l) := by
  refine exists_congr fun w' => and_congr_right fun hw' => ?_
  rw [hpc, Function.update_of_ne hw']

theorem targetsOf_update {pc : SubscribePc S L} (hpc : that.pc = Function.update this.pc w pc)
    (x : S × L) : that.TargetsOf w x ↔
      some x ∈ pc.target :: that.jobs.map SubscribeJob.target := by
  rw [TargetsOf, hpc, Function.update_self]

/-- A worker begins to have a target. -/
theorem targets_begin {pc : SubscribePc S L} (hpc : that.pc = Function.update this.pc w pc)
    (hjobs : that.jobs = this.jobs) (hidle : (this.pc w).target = none) :
    that.Targets st l ↔ pc.target = some (st, l) ∨ this.Targets st l := by
  rw [targets_iff w, others_update hpc, targetsOf_update hpc, targets_iff w, TargetsOf, hidle,
    some_mem_none_cons, hjobs, List.mem_cons, eq_comm]
  exact or_left_comm

/-- A worker moves on, and hands its target over to a job, or a job to it, if at all. -/
theorem Advances.handOver {pc : SubscribePc S L} (hpc : that.pc = Function.update this.pc w pc)
    (htargets : ∀ x, that.TargetsOf w x ↔ this.TargetsOf w x)
    (hlisted : ∀ l, ∀ np ∈ that.subscribers l, np ∈ this.subscribers l)
    (hkept : ∀ l, locked ≠ some l → ∀ np ∈ this.subscribers l, np ∈ that.subscribers l) :
    this.Advances that locked := by
  refine .of_targets (fun st l => ?_) hlisted hkept
  rw [targets_iff w, targets_iff w, others_update hpc, htargets]

/-- A worker moves on, with the same target. -/
theorem Advances.goto {pc : SubscribePc S L} (hpc : that.pc = Function.update this.pc w pc)
    (hjobs : that.jobs = this.jobs) (htarget : pc.target = (this.pc w).target)
    (hlisted : ∀ l, ∀ np ∈ that.subscribers l, np ∈ this.subscribers l)
    (hkept : ∀ l, locked ≠ some l → ∀ np ∈ this.subscribers l, np ∈ that.subscribers l) :
    this.Advances that locked := by
  refine .handOver hpc (fun x => ?_) hlisted hkept
  rw [targetsOf_update hpc, TargetsOf, hjobs, htarget]

/-- A worker gives its target up, when no other record of the session is in a list. -/
theorem Advances.giveUp {pc : SubscribePc S L} (hpc : that.pc = Function.update this.pc w pc)
    (hjobs : that.jobs = this.jobs) (htarget : pc.target = none)
    (hlisted : ∀ l, ∀ np ∈ that.subscribers l, this.Targets np.ntripState l ∨
      np ∈ this.subscribers l ∧ ∀ l', (this.pc w).target ≠ some (np.ntripState, l'))
    (hkept : ∀ l, locked ≠ some l → ∀ np ∈ this.subscribers l, np ∈ that.subscribers l) :
    this.Advances that locked := by
  have hleft (x : S × L) : that.TargetsOf w x ↔ some x ∈ this.jobs.map SubscribeJob.target := by
    rw [targetsOf_update hpc, hjobs, htarget]
    exact some_mem_none_cons
  constructor
  · intro st l hl
    rw [targets_iff w, others_update hpc, hleft] at hl
    exact (targets_iff w).mpr (hl.imp_right (List.mem_cons_of_mem _))
  · intro l np hnp
    refine (hlisted l np hnp).imp_right fun ⟨hold, hother⟩ => ⟨hold, fun ⟨l', hl'⟩ => ⟨l', ?_⟩⟩
    rw [targets_iff w] at hl'
    rw [targets_iff w, others_update hpc, hleft]
    exact hl'.imp_right fun hl' =>
      (List.mem_cons.mp hl').resolve_left fun heq => hother l' heq.symm
  · exact hkept

/-! ### Steps of a worker -/

/-- A worker begins a job. -/
theorem advances_take {i : ℕ} {job : SubscribeJob S L} {memory : Bool} (hpc : this.pc w = .idle)
    (hjob : this.jobs[i]? = some job) (hmemory : memory = true ∨ job.target = none) :
    this.Advances { this.goto w (begin memory job) with jobs := this.jobs.eraseIdx i } none := by
  have htarget : (begin memory job).target = job.target := by
    cases job with
    | livesourceAddSubscriber st l => rfl
    | redistributeSwitchSource st l =>
      rw [begin, if_pos (hmemory.resolve_right (Option.some_ne_none _))]
      rfl
    | livesourceDel l => rfl
  have hidle : (this.pc w).target = none := by rw [hpc]; rfl
  obtain ⟨hi, rfl⟩ := List.getElem?_eq_some_iff.mp hjob
  refine .handOver rfl (fun x => ?_) (fun _ _ => id) fun _ _ _ => id
  have hperm := (List.getElem_cons_eraseIdx_perm hi).map SubscribeJob.target
  rw [targetsOf_update rfl, htarget, TargetsOf, hidle, some_mem_none_cons]
  exact hperm.mem_iff

/-- A worker queues a job. -/
theorem advances_queue {job : SubscribeJob S L} (hpc : this.pc w = .found job) :
    this.Advances { this.goto w .idle with jobs := this.jobs ++ [job] } none := by
  have hfound : (this.pc w).target = job.target := by rw [hpc]; rfl
  refine .handOver rfl (fun x => ?_) (fun _ _ => id) fun _ _ _ => id
  have hperm := (List.perm_append_singleton job this.jobs).map SubscribeJob.target
  rw [targetsOf_update rfl, TargetsOf, hfound]
  exact some_mem_none_cons.trans hperm.mem_iff

variable [DecidableEq S] [DecidableEq L] [DecidableEq M] {mountpoint : L → M} {memory : Bool}

omit [DecidableEq S] [DecidableEq L] [DecidableEq M] in
/-- `livesource_add_subscriber` gives up. The session has no subscription, so that no record of it
is in a list. -/
theorem Sound.advances_cancel (h : this.Sound) {virt : Bool} (hpc : this.pc w = .adding st l virt) :
    this.Advances (this.goto w .idle) none := by
  refine .giveUp rfl rfl rfl (fun l' np hnp => .inr ⟨hnp, fun l'' htarget => ?_⟩) fun _ _ _ => id
  rw [hpc] at htarget
  obtain ⟨hst, -⟩ := Prod.mk.inj (Option.some.inj htarget)
  have hsome := (h.listed l' np hnp).2
  rw [← hst, h.adding w st l virt hpc] at hsome
  contradiction

omit [DecidableEq S] [DecidableEq M] in
/-- The second half of `livesource_add_subscriber`. -/
theorem Sound.advances_insert (h : this.Sound) {sub : SubscriberRecord S L}
    (hpc : this.pc w = .inserting sub) (nsubs : L → ℤ) :
    this.Advances { this.goto w .idle with
      subscribers := Function.update this.subscribers sub.livesource
        (this.subscribers sub.livesource ++ [sub])
      nsubs := nsubs } (some sub.livesource) := by
  obtain ⟨hsub, hnot⟩ := h.inserting w sub hpc
  refine .giveUp rfl rfl rfl (fun l' np hnp => ?_) fun l' _ np hnp => ?_
  · rcases mem_insert_iff.mp hnp with hnp | ⟨rfl, rfl⟩
    · -- a record of the session that is in a list would be the one to insert
      refine .inr ⟨hnp, fun l'' htarget => ?_⟩
      rw [hpc] at htarget
      obtain ⟨hst, -⟩ := Prod.mk.inj (Option.some.inj htarget)
      obtain ⟨hl, hsome⟩ := h.listed l' np hnp
      rw [← hst, hsub] at hsome
      obtain rfl := Option.some.inj hsome
      exact hnot (hl ▸ hnp)
    · exact .inl (.inl ⟨w, by rw [hpc]; rfl⟩)
  · exact mem_insert_iff.mpr (.inl hnp)

/-- **A worker advances**, but for one that queues a job. -/
theorem Sound.advances_work (h : this.Sound) (hfound : (this.pc w).isFound = false)
    (hwork : this.work mountpoint w memory = some that) :
    this.Advances that (this.pc w).locks := by
  have hgoto {pc : SubscribePc S L} (htarget : pc.target = (this.pc w).target) :
      this.Advances (this.goto w pc) (this.pc w).locks :=
    .goto rfl rfl htarget (fun _ _ => id) fun _ _ _ => id
  -- lists are pruned under the lock, then the worker moves on with the same target
  have hprune {mid : Subscriptions W S L M} {l : L} {pc : SubscribePc S L}
      (hprunes : this.Prunes mid l) (hlocks : (this.pc w).locks = some l)
      (htarget : pc.target = (this.pc w).target) :
      this.Advances (mid.goto w pc) (this.pc w).locks := by
    have hadvances := hprunes.advances
    rw [hlocks]
    refine .goto (by rw [Subscriptions.goto, hprunes.pc]) hprunes.jobs htarget ?_ hadvances.kept
    intro l' np hnp
    by_cases hl : l' = l
    · subst hl
      exact hprunes.kept np hnp
    · rw [← hprunes.others l' hl]
      exact hnp
  rw [Subscriptions.work] at hwork
  split at hwork
  · contradiction
  · next job hpc =>
    rw [hpc] at hfound
    contradiction
  · next st l virt hpc =>
    split at hwork
    · obtain rfl := Option.some.inj hwork
      rw [hpc]
      exact h.advances_cancel hpc
    · obtain rfl := Option.some.inj hwork
      exact .goto rfl rfl (by rw [hpc]; rfl) (fun _ _ => id) fun _ _ _ => id
  · next sub hpc =>
    obtain rfl := Option.some.inj hwork
    rw [hpc]
    exact h.advances_insert hpc _
  · next st l hpc =>
    split at hwork
    · obtain rfl := Option.some.inj hwork
      exact hgoto (by rw [hpc]; rfl)
    · obtain rfl := Option.some.inj hwork
      exact hgoto (by rw [hpc]; rfl)
  · next st hpc =>
    split at hwork
    · obtain rfl := Option.some.inj hwork
      exact hgoto (by rw [hpc]; rfl)
    · obtain rfl := Option.some.inj hwork
      exact hgoto (by rw [hpc]; rfl)
  · next st locked hpc =>
    obtain rfl := Option.some.inj hwork
    exact hprune (h.delSubscriber hpc).2.1 (by rw [hpc]; rfl) (by rw [hpc]; rfl)
  · next st locked l hpc =>
    obtain rfl := Option.some.inj hwork
    exact hprune (h.delSubscriber hpc).2.1 (by rw [hpc]; rfl) (by rw [hpc]; rfl)
  · next l hpc =>
    split at hwork
    · obtain rfl := Option.some.inj hwork
      exact .goto rfl rfl (by rw [hpc]; rfl) (fun _ _ => id) fun _ _ _ => id
    · contradiction
  · next l hpc =>
    obtain rfl := Option.some.inj hwork
    exact hprune (h.livesourceEnd l).2.1 (by rw [hpc]; rfl) (by rw [hpc]; rfl)

/-- The other workers stay where they are. -/
theorem Sound.work_others (h : this.Sound) (hwork : this.work mountpoint w memory = some that)
    {w' : W} (hw' : w' ≠ w) : that.pc w' = this.pc w' := by
  have hgoto (pc : SubscribePc S L) : (this.goto w pc).pc w' = this.pc w' :=
    Function.update_of_ne hw' _ _
  have hprune {mid : Subscriptions W S L M} {l : L} (hprunes : this.Prunes mid l)
      (pc : SubscribePc S L) : (mid.goto w pc).pc w' = this.pc w' := by
    rw [← hprunes.pc]
    exact Function.update_of_ne hw' _ _
  rw [Subscriptions.work] at hwork
  split at hwork
  · contradiction
  · obtain rfl := Option.some.inj hwork
    exact hgoto _
  · split at hwork
    · obtain rfl := Option.some.inj hwork
      exact hgoto _
    · obtain rfl := Option.some.inj hwork
      exact hgoto _
  · obtain rfl := Option.some.inj hwork
    exact hgoto _
  · split at hwork
    · obtain rfl := Option.some.inj hwork
      exact hgoto _
    · obtain rfl := Option.some.inj hwork
      exact hgoto _
  · split at hwork
    · obtain rfl := Option.some.inj hwork
      exact hgoto _
    · obtain rfl := Option.some.inj hwork
      exact hgoto _
  · next hpc =>
    obtain rfl := Option.some.inj hwork
    exact hprune (h.delSubscriber hpc).2.1 _
  · next hpc =>
    obtain rfl := Option.some.inj hwork
    exact hprune (h.delSubscriber hpc).2.1 _
  · split at hwork
    · obtain rfl := Option.some.inj hwork
      exact hgoto _
    · contradiction
  · next l hpc =>
    obtain rfl := Option.some.inj hwork
    exact hprune (h.livesourceEnd l).2.1 _

/-- A livesource is found for a session of a virtual mountpoint. -/
theorem find_spec {create : Bool}
    (hstep : this.step (fun _ => true) mountpoint (.livesourceFind w st l create) = some that) :
    this.pc w = .idle ∧
      that.pc = Function.update this.pc w (.found (.redistributeSwitchSource st l)) ∧
      that.jobs = this.jobs ∧ that.subscribers = this.subscribers := by
  rw [Subscriptions.step] at hstep
  split at hstep
  · next hguard =>
    obtain rfl := Option.some.inj hstep
    exact ⟨hguard.1, rfl, rfl, rfl⟩
  · contradiction

end Subscriptions

end ChilopodCaster
