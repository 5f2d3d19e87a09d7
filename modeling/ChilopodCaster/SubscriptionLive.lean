import ChilopodCaster.SubscriptionSerial

/-!
# Sessions attached to a livesource that is gone

A job that subscribes a session carries the livesource that was found, and holds a reference to it;
but the livesource may be taken out of the table, and its subscribers dropped, before the job runs.
The session is then subscribed to a livesource that is not in the table, and which no source feeds.
It is not as long as `livesource_end` is run only when no such job is left for the livesource.

## Main definitions

* `Subscriptions.Outstanding` — a livesource was found, and its job is not done
* `Subscriptions.Orderly` — the steps that drop the subscribers of a livesource at the right time
* `Subscriptions.Attached` — subscribed sessions have a livesource that is in the table

## Main results

* `Subscriptions.orderly_attached` — every run of such steps
-/

namespace ChilopodCaster

variable {W S L M : Type}

/-- The livesource a session is to be subscribed to by a job. -/
def SubscribeJob.carries : SubscribeJob S L → Option L
  | .livesourceAddSubscriber _ l => some l
  | .redistributeSwitchSource _ l => some l
  | .livesourceDel _ => none

namespace SubscribePc

/-- The livesource a worker is about to subscribe a session to, or has found. -/
def carries : SubscribePc S L → Option L
  | .found job => job.carries
  | .adding _ l _ => some l
  | .inserting sub => some sub.livesource
  | .switching _ l => some l
  | .removing _ _ next => next
  | _ => none

/-- The livesource whose subscribers a worker is about to drop. -/
def ends : SubscribePc S L → Option L
  | .ending l => some l
  | _ => none

/-- No job is being run. -/
def rests : SubscribePc S L → Bool
  | .idle => true
  | .found _ => true
  | _ => false

end SubscribePc

namespace Subscriptions

/-- The livesource was found for a session, and the job is not done. -/
def Outstanding (this : Subscriptions W S L M) (l : L) : Prop :=
  (∃ job ∈ this.jobs, job.carries = some l) ∨ ∃ w, (this.pc w).carries = some l

/-- The subscribers of a livesource are dropped only when no job is outstanding for it. -/
def Settled (this : Subscriptions W S L M) : SubscribeStep W S L → Prop
  | .work w _ => ∀ l ∈ (this.pc w).ends, ¬ this.Outstanding l
  | _ => True

/-- The subscribers of a livesource are dropped only when no job is outstanding for it; and the
sessions are served by one worker at a time. -/
def Orderly (this : Subscriptions W S L M) (a : SubscribeStep W S L) : Prop :=
  this.Serial a ∧ this.Settled a

/-- The livesource is in the table, or its subscribers are about to be dropped. -/
def Present (mountpoint : L → M) (this : Subscriptions W S L M) (l : L) : Prop :=
  this.hash (mountpoint l) = some l ∨ ∃ w, (this.pc w).ends = some l

/-- What holds of livesources that are found or subscribed to. -/
structure Live (mountpoint : L → M) (this : Subscriptions W S L M) : Prop where
  subscribed : ∀ st sub, this.subscription st = some sub → this.Present mountpoint sub.livesource
  outstanding : ∀ l, this.Outstanding l → this.Present mountpoint l

variable {sourceVirtual : S → Bool} {mountpoint : L → M} {this that : Subscriptions W S L M} {w : W}
  {l : L} {st : S} {memory : Bool}

theorem live_new : (new W S L M).Live mountpoint where
  subscribed st sub hsub := by simp [new] at hsub
  outstanding l hl := by simp [Outstanding, new, SubscribePc.carries] at hl

/-- Fewer livesources are found or subscribed to, and those that are stay. -/
theorem Live.mono (h : this.Live mountpoint)
    (hsubscription : ∀ st sub, that.subscription st = some sub →
      this.subscription st = some sub ∨ this.Outstanding sub.livesource)
    (houtstanding : ∀ l, that.Outstanding l → this.Outstanding l)
    (hpresent : ∀ l, this.Present mountpoint l → that.Present mountpoint l) :
    that.Live mountpoint where
  subscribed st sub hsub := by
    rcases hsubscription st sub hsub with hsub | hout
    · exact hpresent _ (h.subscribed st sub hsub)
    · exact hpresent _ (h.outstanding _ hout)
  outstanding l hl := hpresent l (h.outstanding l (houtstanding l hl))

theorem Live.prunes (h : this.Live mountpoint) (hprunes : this.Prunes that l) :
    that.Live mountpoint := by
  refine h.mono (fun st sub hsub => ?_) (fun l hl => ?_) fun l hl => ?_
  · rcases hprunes.subscription st with heq | hnone
    · exact .inl (heq ▸ hsub)
    · rw [hnone] at hsub
      contradiction
  · rw [Outstanding, hprunes.jobs, hprunes.pc] at hl
    exact hl
  · rw [Present, hprunes.hash, hprunes.pc]
    exact hl

variable [DecidableEq W]

/-- A worker moves on, and carries no other livesource. -/
theorem Live.goto (h : this.Live mountpoint) {pc : SubscribePc S L}
    (hpc : that.pc = Function.update this.pc w pc) (hjobs : that.jobs.Sublist this.jobs)
    (hhash : that.hash = this.hash)
    (hsubscription : ∀ st sub, that.subscription st = some sub →
      this.subscription st = some sub ∨ this.Outstanding sub.livesource)
    (hcarries : ∀ l, pc.carries = some l → this.Outstanding l) (hends : (this.pc w).ends = none) :
    that.Live mountpoint := by
  have hmove (w' : W) : that.pc w' = if w' = w then pc else this.pc w' := by
    rw [hpc]
    exact Function.update_apply this.pc w pc w'
  refine h.mono hsubscription (fun l hl => ?_) fun l hl => ?_
  · rcases hl with ⟨job, hjob, hl⟩ | ⟨w', hw'⟩
    · exact .inl ⟨job, hjobs.subset hjob, hl⟩
    · rw [hmove] at hw'
      split at hw'
      · exact hcarries l hw'
      · exact .inr ⟨w', hw'⟩
  · rcases hl with hget | ⟨w', hw'⟩
    · exact .inl (by rw [hhash, hget])
    · refine .inr ⟨w', ?_⟩
      rw [hmove, if_neg, hw']
      rintro rfl
      rw [hends] at hw'
      contradiction

/-- The job that was found is queued. -/
theorem Live.append (h : this.Live mountpoint) {job : SubscribeJob S L}
    (hpc : this.pc w = .found job) :
    Live mountpoint { this.goto w .idle with jobs := this.jobs ++ [job] } := by
  refine h.mono (fun _ _ => .inl) (fun l hl => ?_) fun l hl => ?_
  · rcases hl with ⟨job', hjob', hl⟩ | ⟨w', hw'⟩
    · rcases List.mem_append.mp hjob' with hjob' | hjob'
      · exact .inl ⟨job', hjob', hl⟩
      · rw [List.mem_singleton.mp hjob'] at hl
        exact .inr ⟨w, by rw [hpc]; exact hl⟩
    · dsimp only at hw'
      rw [goto_pc] at hw'
      split at hw'
      · contradiction
      · exact .inr ⟨w', hw'⟩
  · refine hl.imp_right fun ⟨w', hw'⟩ => ⟨w', ?_⟩
    dsimp only
    rw [goto_pc, if_neg, hw']
    rintro rfl
    rw [hpc] at hw'
    contradiction

variable [DecidableEq M]

omit [DecidableEq W] in
/-- A livesource is put in the table where there is nothing, or where it is already. -/
theorem Present.update (h : this.Present mountpoint l) {l' : L}
    (hfree : this.hash (mountpoint l') = none ∨ this.hash (mountpoint l') = some l')
    (hhash : that.hash = Function.update this.hash (mountpoint l') (some l'))
    (hends : ∀ w, (this.pc w).ends = some l → (that.pc w).ends = some l) :
    that.Present mountpoint l := by
  rcases h with hget | ⟨w, hw⟩
  · refine .inl ?_
    rw [hhash, Function.update_apply]
    split
    · next heq =>
      rw [← heq, hget] at hfree
      rcases hfree with hnone | hsome
      · contradiction
      · rw [Option.some.inj hsome]
    · exact hget
  · exact .inr ⟨w, hends w hw⟩

/-- A livesource is found, or made on demand, for a session. -/
theorem Live.find (h : this.Live mountpoint) (hpc : this.pc w = .idle)
    (hfree : this.hash (mountpoint l) = none ∨ this.hash (mountpoint l) = some l)
    {job : SubscribeJob S L} (hjob : job.carries = some l) (asked : S → Bool) (made : L → Bool) :
    Live mountpoint { this.goto w (.found job) with
      asked := asked
      made := made
      hash := Function.update this.hash (mountpoint l) (some l) } := by
  have hpresent {l' : L} (hl' : this.Present mountpoint l') :
      Present mountpoint { this.goto w (.found job) with
        asked := asked
        made := made
        hash := Function.update this.hash (mountpoint l) (some l) } l' := by
    refine hl'.update hfree rfl fun w' hw' => ?_
    dsimp only
    rw [goto_pc, if_neg, hw']
    rintro rfl
    rw [hpc] at hw'
    contradiction
  constructor
  · intro st sub hsub
    exact hpresent (h.subscribed st sub hsub)
  · rintro l' (⟨job', hjob', hl'⟩ | ⟨w', hw'⟩)
    · exact hpresent (h.outstanding l' (.inl ⟨job', hjob', hl'⟩))
    · dsimp only at hw'
      rw [goto_pc] at hw'
      split at hw'
      · obtain rfl := Option.some.inj (hjob.symm.trans hw')
        exact .inl (Function.update_self _ _ _)
      · exact hpresent (h.outstanding l' (.inr ⟨w', hw'⟩))

variable [DecidableEq L]

/-- The first half of `livesource_del`. -/
theorem Live.unregister (h : this.Live mountpoint) (hpc : this.pc w = .unregistering l)
    (hget : this.hash (mountpoint l) = some l) :
    Live mountpoint { this.goto w (.ending l) with
      hash := Function.update this.hash (mountpoint l) none } := by
  refine h.mono (fun _ _ => .inl) (fun l' hl' => ?_) fun l' hl' => ?_
  · refine hl'.imp_right fun ⟨w', hw'⟩ => ⟨w', ?_⟩
    dsimp only at hw'
    rw [goto_pc] at hw'
    split at hw'
    · contradiction
    · exact hw'
  · by_cases heq : l' = l
    · exact .inr ⟨w, by dsimp only; rw [goto_pc, if_pos rfl, heq]; rfl⟩
    · rcases hl' with hget' | ⟨w', hw'⟩
      · refine .inl ?_
        dsimp only
        rw [Function.update_of_ne, hget']
        intro hsame
        rw [hsame, hget, Option.some.injEq] at hget'
        exact heq hget'.symm
      · refine .inr ⟨w', ?_⟩
        dsimp only
        rw [goto_pc, if_neg, hw']
        rintro rfl
        rw [hpc] at hw'
        contradiction

variable [DecidableEq S]

omit [DecidableEq M] in
/-- `livesource_end`, when no job is outstanding for the livesource. -/
theorem Live.livesourceEnd (h : this.Live mountpoint) (hsound : this.Sound)
    (hpc : this.pc w = .ending l) (hnot : ¬ this.Outstanding l) :
    ((this.livesourceEnd l).goto w .idle).Live mountpoint := by
  obtain ⟨hsound', hprunes, hnil⟩ := hsound.livesourceEnd l
  have hmove (w' : W) : ((this.livesourceEnd l).goto w .idle).pc w' =
      if w' = w then .idle else this.pc w' := by
    rw [goto_pc, hprunes.pc]
  have hout {l' : L} (hl' : ((this.livesourceEnd l).goto w .idle).Outstanding l') :
      this.Outstanding l' := by
    rcases hl' with ⟨job, hjob, hl'⟩ | ⟨w', hw'⟩
    · exact .inl ⟨job, hprunes.jobs ▸ hjob, hl'⟩
    · rw [hmove] at hw'
      split at hw'
      · contradiction
      · exact .inr ⟨w', hw'⟩
  have hpresent {l' : L} (hne : l' ≠ l) (hl' : this.Present mountpoint l') :
      ((this.livesourceEnd l).goto w .idle).Present mountpoint l' := by
    rcases hl' with hget | ⟨w', hw'⟩
    · exact .inl ((congrFun hprunes.hash _).trans hget)
    · refine .inr ⟨w', ?_⟩
      rw [hmove, if_neg, hw']
      rintro rfl
      rw [hpc] at hw'
      exact hne (Option.some.inj hw').symm
  constructor
  · intro st sub hsub
    have hlist := (hsound'.subscribed st sub hsub).2
    have hne : sub.livesource ≠ l := by
      rintro rfl
      rcases hlist with hlist | ⟨w', hw'⟩
      · rw [hnil] at hlist
        contradiction
      · rw [hprunes.pc] at hw'
        exact hnot (.inr ⟨w', by rw [hw']; rfl⟩)
    rcases hprunes.subscription st with heq | hnone
    · exact hpresent hne (h.subscribed st sub (heq ▸ hsub))
    · exact absurd (hnone.symm.trans hsub) (Option.some_ne_none sub).symm
  · intro l' hl'
    refine hpresent ?_ (h.outstanding l' (hout hl'))
    rintro rfl
    exact hnot (hout hl')

theorem Live.work (h : this.Live mountpoint) (hsound : this.Sound)
    (hnot : ∀ l ∈ (this.pc w).ends, ¬ this.Outstanding l)
    (hwork : this.work mountpoint w memory = some that) : that.Live mountpoint := by
  have hsame (st : S) (sub : SubscriberRecord S L) (hsub : this.subscription st = some sub) :
      this.subscription st = some sub ∨ this.Outstanding sub.livesource := .inl hsub
  have hcarried {l : L} (hl : (this.pc w).carries = some l) : this.Outstanding l := .inr ⟨w, hl⟩
  have hnever {l : L} {p : Prop} (hnone : (none : Option L) = some l) : p := by contradiction
  have hgoto {pc : SubscribePc S L} (hcarries : ∀ l, pc.carries = some l → this.Outstanding l)
      (hends : (this.pc w).ends = none) : (this.goto w pc).Live mountpoint :=
    h.goto rfl (List.Sublist.refl _) rfl hsame hcarries hends
  rw [Subscriptions.work] at hwork
  split at hwork
  · contradiction
  · next job hpc =>
    obtain rfl := Option.some.inj hwork
    split
    · exact h.append hpc
    · rw [List.append_nil]
      exact hgoto (fun _ => hnever) (by rw [hpc]; rfl)
  · next st l virt hpc =>
    have hl : this.Outstanding l := hcarried (by rw [hpc]; rfl)
    split at hwork
    · obtain rfl := Option.some.inj hwork
      exact hgoto (fun _ => hnever) (by rw [hpc]; rfl)
    · obtain rfl := Option.some.inj hwork
      refine h.goto rfl (List.Sublist.refl _) rfl (fun st' sub hsub => ?_) ?_ (by rw [hpc]; rfl)
      · dsimp only at hsub
        rw [Function.update_apply] at hsub
        split at hsub
        · obtain rfl := Option.some.inj hsub
          exact .inr hl
        · exact .inl hsub
      · rintro _ ⟨⟩
        exact hl
  · next sub hpc =>
    obtain rfl := Option.some.inj hwork
    exact h.goto rfl (List.Sublist.refl _) rfl hsame (fun _ => hnever) (by rw [hpc]; rfl)
  · next st l hpc =>
    have hl : this.Outstanding l := hcarried (by rw [hpc]; rfl)
    split at hwork
    · obtain rfl := Option.some.inj hwork
      refine hgoto ?_ (by rw [hpc]; rfl)
      rintro _ ⟨⟩
      exact hl
    · obtain rfl := Option.some.inj hwork
      refine hgoto ?_ (by rw [hpc]; rfl)
      rintro _ ⟨⟩
      exact hl
  · next st hpc =>
    split at hwork
    · obtain rfl := Option.some.inj hwork
      exact hgoto (fun _ => hnever) (by rw [hpc]; rfl)
    · obtain rfl := Option.some.inj hwork
      exact hgoto (fun _ => hnever) (by rw [hpc]; rfl)
  · next st locked hpc =>
    obtain rfl := Option.some.inj hwork
    have hprunes := (hsound.delSubscriber hpc).2.1
    exact (h.prunes hprunes).goto rfl (List.Sublist.refl _) rfl (fun _ _ => .inl) (fun _ => hnever)
      (by rw [hprunes.pc, hpc]; rfl)
  · next st locked l hpc =>
    obtain rfl := Option.some.inj hwork
    have hprunes := (hsound.delSubscriber hpc).2.1
    refine (h.prunes hprunes).goto rfl (List.Sublist.refl _) rfl (fun _ _ => .inl) ?_
      (by rw [hprunes.pc, hpc]; rfl)
    rintro _ ⟨⟩
    exact .inr ⟨w, by rw [hprunes.pc, hpc]; rfl⟩
  · next l hpc =>
    split at hwork
    · next hget =>
      obtain rfl := Option.some.inj hwork
      exact h.unregister hpc hget
    · contradiction
  · next l hpc =>
    obtain rfl := Option.some.inj hwork
    exact h.livesourceEnd hsound hpc (hnot l (by rw [hpc]; rfl))

theorem Live.step {a : SubscribeStep W S L} (h : this.Live mountpoint) (hsound : this.Sound)
    (horderly : this.Orderly a) (hstep : this.step sourceVirtual mountpoint a = some that) :
    that.Live mountpoint := by
  cases a with
  | livesourceConnected l' =>
    rw [Subscriptions.step] at hstep
    split at hstep
    · next hguard =>
      obtain rfl := Option.some.inj hstep
      refine h.mono (fun _ _ => .inl) (fun _ => id) fun l hl => ?_
      exact hl.update (.inl hguard.2) rfl fun _ => id
    · contradiction
  | livesourceFind w st l' create =>
    rw [Subscriptions.step] at hstep
    split at hstep
    · next hguard =>
      obtain ⟨hpc, -, hfinds⟩ := hguard
      obtain rfl := Option.some.inj hstep
      have hfree : this.hash (mountpoint l') = none ∨ this.hash (mountpoint l') = some l' :=
        hfinds.elim (fun hfinds => .inr hfinds.2) fun hfinds => .inl hfinds.2.2
      refine h.find hpc hfree ?_ _ _
      split
      · rfl
      · rfl
    · contradiction
  | ntripUnregisterLivesource l' =>
    rw [Subscriptions.step] at hstep
    split at hstep
    · obtain rfl := Option.some.inj hstep
      refine h.mono (fun _ _ => .inl) (fun l hl => ?_) fun _ => id
      rcases hl with ⟨job, hjob, hl⟩ | hw
      · rcases List.mem_append.mp hjob with hjob | hjob
        · exact .inl ⟨job, hjob, hl⟩
        · rw [List.mem_singleton.mp hjob] at hl
          contradiction
      · exact .inr hw
    · contradiction
  | take w i memory =>
    rw [Subscriptions.step] at hstep
    split at hstep
    · next job hpc hjob =>
      obtain rfl := Option.some.inj hstep
      have hmem := List.mem_of_getElem? hjob
      refine h.goto rfl (List.eraseIdx_sublist this.jobs i) rfl (fun _ _ => .inl) (fun l hl => ?_)
        (by rw [hpc]; rfl)
      refine .inl ⟨job, hmem, ?_⟩
      cases job with
      | livesourceAddSubscriber st l' => exact hl
      | redistributeSwitchSource st l' =>
        rw [begin] at hl
        split at hl
        · exact hl
        · contradiction
      | livesourceDel l' => contradiction
    · contradiction
  | livesourceDelSubscriber w st =>
    rw [Subscriptions.step] at hstep
    split at hstep
    · next hpc =>
      obtain rfl := Option.some.inj hstep
      refine h.goto rfl (List.Sublist.refl _) rfl (fun _ _ => .inl) ?_ (by rw [hpc]; rfl)
      rintro _ ⟨⟩
    · contradiction
  | work w memory => exact h.work hsound horderly.2 hstep
  | livesourceSendSubscribers l' output backlogEvbuffer =>
    obtain rfl := Option.some.inj hstep
    exact h.prunes (hsound.livesourceSendSubscribers l' output backlogEvbuffer).2
  | ntripDecrefEnd st =>
    obtain rfl := Option.some.inj hstep
    exact h.mono (fun _ _ => .inl) (fun _ => id) fun _ => id

/-- When no subscription or deletion job is queued or being run, a session that has a subscription
is in the list of a livesource that is in the table under its mountpoint. -/
def Attached (mountpoint : L → M) (this : Subscriptions W S L M) : Prop :=
  this.jobs = [] → (∀ w, (this.pc w).rests) → ∀ st sub, this.subscription st = some sub →
    sub ∈ this.subscribers sub.livesource ∧
      this.hash (mountpoint sub.livesource) = some sub.livesource

omit [DecidableEq W] [DecidableEq M] [DecidableEq L] [DecidableEq S] in
theorem Live.attached (h : this.Live mountpoint) (hsound : this.Sound) :
    this.Attached mountpoint := by
  intro _ hrests st sub hsub
  constructor
  · rcases (hsound.subscribed st sub hsub).2 with hlist | ⟨w, hw⟩
    · exact hlist
    · have hrest := hrests w
      rw [hw] at hrest
      contradiction
  · rcases h.subscribed st sub hsub with hget | ⟨w, hw⟩
    · exact hget
    · have hrest := hrests w
      cases hpc : this.pc w <;> rw [hpc] at hw hrest <;> contradiction

/-- The invariant of runs of such steps. -/
structure OrderlyInvariant (sourceVirtual : S → Bool) (mountpoint : L → M)
    (this : Subscriptions W S L M) : Prop where
  serial : this.Invariant sourceVirtual
  live : this.Live mountpoint

/-- **Subscribed sessions have a livesource that is in the table**, in every state at rest of a run
in which the subscribers of a livesource are dropped only when no job is outstanding for it, and in
which the sessions are served by one worker at a time. -/
theorem orderly_attached (h : Transition.Reachable (· = new W S L M) Orderly
    (step sourceVirtual mountpoint) this) : this.Attached mountpoint := by
  have hinv : this.OrderlyInvariant sourceVirtual mountpoint := by
    refine h.invariant ?_ fun this a that hthis horderly hstep => ?_
    · rintro _ rfl
      exact ⟨invariant_new, live_new⟩
    · exact ⟨hthis.serial.step horderly.1 hstep,
        hthis.live.step hthis.serial.sound horderly hstep⟩
  exact hinv.live.attached hinv.serial.sound

instance decidableOutstanding [Fintype W] (this : Subscriptions W S L M) (l : L) :
    Decidable (this.Outstanding l) := inferInstanceAs (Decidable (_ ∨ _))

instance decidableSettled [Fintype W] (this : Subscriptions W S L M) : DecidablePred this.Settled
  | .work w _ => inferInstanceAs (Decidable (∀ l ∈ (this.pc w).ends, ¬ this.Outstanding l))
  | .take _ _ _ => inferInstanceAs (Decidable True)
  | .livesourceDelSubscriber _ _ => inferInstanceAs (Decidable True)
  | .livesourceConnected _ => inferInstanceAs (Decidable True)
  | .livesourceFind _ _ _ _ => inferInstanceAs (Decidable True)
  | .ntripUnregisterLivesource _ => inferInstanceAs (Decidable True)
  | .livesourceSendSubscribers _ _ _ => inferInstanceAs (Decidable True)
  | .ntripDecrefEnd _ => inferInstanceAs (Decidable True)

instance decidableOrderly [Fintype W] (this : Subscriptions W S L M) (a : SubscribeStep W S L) :
    Decidable (this.Orderly a) := inferInstanceAs (Decidable (_ ∧ _))

/-- A session of a virtual mountpoint is sent to a livesource, which is deleted. -/
def sentAndDeleted : List (SubscribeStep Bool Unit Unit) :=
  [.livesourceConnected (), .livesourceFind false () () false, .work false true,
    .ntripUnregisterLivesource (), .take false 0 true, .take true 0 true]

/-- The job for the session is done before the subscribers of the livesource are dropped. The
session is then sent to another livesource. -/
def movedInTime : List (SubscribeStep Bool Unit Bool) :=
  [.livesourceConnected false, .livesourceFind false () false false, .work false true,
    .ntripUnregisterLivesource false, .take false 0 true, .take true 0 true, .work true true,
    .work false true, .work false true, .work false true, .work true true,
    .livesourceFind false () true true, .work false true, .take false 0 true, .work false true,
    .work false true, .work false true]

theorem orderly_attached_movedInTime :
    ∃ this : Subscriptions Bool Unit Bool Unit,
      Transition.Reachable (· = new Bool Unit Bool Unit) Orderly
        (step (fun _ => true) fun _ => ()) this ∧
      this.subscription () = some ⟨1, true, (), true⟩ ∧ this.hash () = some true := by
  have hobserve : (movedInTime.foldlM (fun this a => if Orderly this a then
      step (fun _ => true) (fun _ => ()) this a else none) (new Bool Unit Bool Unit)).map
        (fun this => (this.subscription (), this.jobs, this.pc false, this.pc true)) =
      some (some ⟨1, true, (), true⟩, [], .idle, .idle) := by
    decide
  obtain ⟨this, hrun, hthis⟩ := Option.map_eq_some_iff.mp hobserve
  simp only [Prod.mk.injEq] at hthis
  obtain ⟨hsub, hjobs, hfalse, htrue⟩ := hthis
  have hreach : Transition.Reachable (· = new Bool Unit Bool Unit) Orderly
      (step (fun _ => true) fun _ => ()) this := Transition.reachable_of_foldlM (.refl rfl) hrun
  refine ⟨this, hreach, hsub, (orderly_attached hreach hjobs ?_ () _ hsub).2⟩
  intro w
  cases w
  · rw [hfalse]
    rfl
  · rw [htrue]
    rfl

/-- The subscribers of the livesource are dropped first, and the session is subscribed after. -/
def subscribedTooLate : List (SubscribeStep Bool Unit Unit) :=
  sentAndDeleted ++ ([.work true true, .work true true, .work false true, .work false true,
    .work false true] : List (SubscribeStep Bool Unit Unit))

/-- The session stays subscribed to a livesource that is not in the table. -/
theorem not_attached_subscribedTooLate :
    ¬ ∀ this : Subscriptions Bool Unit Unit Unit,
      Transition.Reachable (· = new Bool Unit Unit Unit) (fun _ _ => True)
        (step (fun _ => true) id) this → this.Attached id := by
  intro h
  have hobserve : (subscribedTooLate.foldlM (fun this a => if True then
      step (fun _ => true) id this a else none) (new Bool Unit Unit Unit)).map
        (fun this => (this.subscription (), this.hash (), this.jobs,
          (this.pc false).rests && (this.pc true).rests)) =
      some (some ⟨0, (), (), true⟩, none, [], true) := by
    decide
  obtain ⟨this, hrun, hthis⟩ := Option.map_eq_some_iff.mp hobserve
  simp only [Prod.mk.injEq, Bool.and_eq_true] at hthis
  obtain ⟨hsub, hhash, hjobs, hfalse, htrue⟩ := hthis
  have hattached := h this (Transition.reachable_of_foldlM (.refl rfl) hrun)
  have hrests (w : Bool) : (this.pc w).rests := by
    cases w
    · exact hfalse
    · exact htrue
  have hget := (hattached hjobs hrests () _ hsub).2
  rw [id, hhash] at hget
  contradiction

end Subscriptions

end ChilopodCaster
