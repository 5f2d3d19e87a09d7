import ChilopodCaster.Lib.Holdings
import ChilopodCaster.Subscription
import Mathlib.Data.List.Nodup

/-!
# Subscriptions are consistent when a session is served by one worker

A record is in the list of the livesource it names, and its session points to it; or it will be put
there by the worker that has set the pointer. This is kept as long as no two workers are at the
subscription of one session at the same time. It is not otherwise: two jobs that switch a session
may both find it without a subscription, and the assertion of the second one then fails.

## Main definitions

* `Subscriptions.Sound` — the invariant
* `Subscriptions.AloneBut` — no other worker is at a session

## Main results

* `Subscriptions.Sound.killSubscribersUnlocked` — what the loop over the subscribers does
* `Subscriptions.Sound.work` — what a worker does keeps the invariant
-/

namespace ChilopodCaster

variable {W S L M : Type}

/-- The session whose subscription a worker is at. -/
def SubscribePc.session : SubscribePc S L → Option S
  | .adding st _ _ => some st
  | .inserting sub => some sub.ntripState
  | .switching st _ => some st
  | .reading st => some st
  | .removing st _ _ => some st
  | _ => none

/-- The record a worker is about to insert. -/
def SubscribePc.inserts : SubscribePc S L → Option (SubscriberRecord S L)
  | .inserting sub => some sub
  | _ => none

/-- The session a job is for. -/
def SubscribeJob.session : SubscribeJob S L → Option S
  | .livesourceAddSubscriber st _ => some st
  | .redistributeSwitchSource st _ => some st
  | .livesourceDel _ => none

namespace Subscriptions

/-- What holds of records, lists and workers. -/
structure Sound (this : Subscriptions W S L M) : Prop where
  listed : ∀ l, ∀ sub ∈ this.subscribers l,
    sub.livesource = l ∧ this.subscription sub.ntripState = some sub
  nodup : ∀ l, (this.subscribers l).Nodup
  nsubs : ∀ l, this.nsubs l = (this.subscribers l).length
  subscribed : ∀ st sub, this.subscription st = some sub → sub.ntripState = st ∧
    (sub ∈ this.subscribers sub.livesource ∨ ∃ w, this.pc w = .inserting sub)
  alone : ∀ w w' st, (this.pc w).session = some st → (this.pc w').session = some st → w' = w
  inserting : ∀ w sub, this.pc w = .inserting sub →
    this.subscription sub.ntripState = some sub ∧ sub ∉ this.subscribers sub.livesource
  adding : ∀ w st l virt, this.pc w = .adding st l virt → this.subscription st = none
  removing : ∀ w st locked next, this.pc w = .removing st locked next →
    ∀ sub, this.subscription st = some sub → sub.livesource = locked
  failed : this.failed = false

variable {this that : Subscriptions W S L M} {w : W} {l : L} {sub : SubscriberRecord S L}

theorem sound_new : (new W S L M).Sound where
  listed l sub hsub := by simp [new] at hsub
  nodup l := List.nodup_nil
  nsubs l := rfl
  subscribed st sub hsub := by simp [new] at hsub
  alone w w' st hw := by simp [new, SubscribePc.session] at hw
  inserting w sub hw := by simp [new] at hw
  adding w st l virt hw := by simp [new] at hw
  removing w st locked next hw := by simp [new] at hw
  failed := rfl

/-! ### Frame lemmas -/

theorem goto_pc [DecidableEq W] (pc : SubscribePc S L) (w' : W) :
    (this.goto w pc).pc w' = if w' = w then pc else this.pc w' :=
  Function.update_apply this.pc w pc w'

/-- Jobs, the table of livesources and the states of sessions have no part in the invariant. -/
theorem Sound.congr (h : this.Sound) (hsubscription : that.subscription = this.subscription)
    (hsubscribers : that.subscribers = this.subscribers) (hnsubs : that.nsubs = this.nsubs)
    (hpc : that.pc = this.pc) (hfailed : that.failed = this.failed) : that.Sound := by
  constructor
  · rw [hsubscribers, hsubscription]
    exact h.listed
  · rw [hsubscribers]
    exact h.nodup
  · rw [hsubscribers, hnsubs]
    exact h.nsubs
  · rw [hsubscribers, hsubscription, hpc]
    exact h.subscribed
  · rw [hpc]
    exact h.alone
  · rw [hsubscribers, hsubscription, hpc]
    exact h.inserting
  · rw [hsubscription, hpc]
    exact h.adding
  · rw [hsubscription, hpc]
    exact h.removing
  · rw [hfailed]
    exact h.failed

/-- No worker is at the subscription of the session, but for the given one. -/
def AloneBut (this : Subscriptions W S L M) (w : W) (st : S) : Prop :=
  ∀ w', w' ≠ w → (this.pc w').session ≠ some st

theorem Sound.aloneBut (h : this.Sound) {st : S} (hw : (this.pc w).session = some st) :
    this.AloneBut w st :=
  fun _ hne hw' => hne (h.alone w _ st hw hw')

variable [DecidableEq W]

/-- A worker moves on, and no record is left to be inserted. -/
theorem Sound.goto (h : this.Sound) {pc : SubscribePc S L}
    (hold : (this.pc w).inserts = none) (hnew : pc.inserts = none)
    (halone : ∀ st, pc.session = some st → this.AloneBut w st)
    (hadding : ∀ st l virt, pc = .adding st l virt → this.subscription st = none)
    (hremoving : ∀ st locked next, pc = .removing st locked next →
      ∀ sub, this.subscription st = some sub → sub.livesource = locked) :
    (this.goto w pc).Sound := by
  have hpc (w' : W) : (this.goto w pc).pc w' = if w' = w then pc else this.pc w' :=
    Function.update_apply this.pc w pc w'
  constructor
  · exact h.listed
  · exact h.nodup
  · exact h.nsubs
  · intro st sub hsub
    obtain ⟨hst, hlist | ⟨w', hw'⟩⟩ := h.subscribed st sub hsub
    · exact ⟨hst, .inl hlist⟩
    · refine ⟨hst, .inr ⟨w', ?_⟩⟩
      rw [hpc, if_neg, hw']
      rintro rfl
      rw [hw'] at hold
      contradiction
  · intro w₁ w₂ st hw₁ hw₂
    rw [hpc] at hw₁ hw₂
    split at hw₁ <;> split at hw₂
    · next h₁ h₂ => rw [h₁, h₂]
    · next h₁ h₂ => exact absurd hw₂ (halone st hw₁ w₂ h₂)
    · next h₁ h₂ => exact absurd hw₁ (halone st hw₂ w₁ h₁)
    · exact h.alone w₁ w₂ st hw₁ hw₂
  · intro w' sub hw'
    rw [hpc] at hw'
    split at hw'
    · rw [hw'] at hnew
      contradiction
    · exact h.inserting w' sub hw'
  · intro w' st l virt hw'
    rw [hpc] at hw'
    split at hw'
    · exact hadding st l virt hw'
    · exact h.adding w' st l virt hw'
  · intro w' st locked next hw'
    rw [hpc] at hw'
    split at hw'
    · exact hremoving st locked next hw'
    · exact h.removing w' st locked next hw'
  · exact h.failed

/-- A worker goes to a place where it is at no subscription. -/
theorem Sound.goto_free (h : this.Sound) {pc : SubscribePc S L}
    (hold : (this.pc w).inserts = none) (hfree : pc.session = none) :
    (this.goto w pc).Sound := by
  refine h.goto hold ?_ (fun st hst => ?_) ?_ ?_
  · cases pc <;> first | rfl | contradiction
  · rw [hfree] at hst
    contradiction
  · rintro st l virt rfl
    contradiction
  · rintro st locked next rfl
    contradiction

/-! ### Subscribers that are dropped -/

/-- Subscribers of one livesource are dropped, and nothing else is changed that matters here. -/
structure Prunes (this that : Subscriptions W S L M) (l : L) : Prop where
  subscription : ∀ st, that.subscription st = this.subscription st ∨ that.subscription st = none
  kept : ∀ sub ∈ that.subscribers l, sub ∈ this.subscribers l
  others : ∀ l', l' ≠ l → that.subscribers l' = this.subscribers l'
  pc : that.pc = this.pc
  jobs : that.jobs = this.jobs
  hash : that.hash = this.hash
  made : that.made = this.made
  asked : that.asked = this.asked

omit [DecidableEq W] in
theorem Prunes.refl (this : Subscriptions W S L M) (l : L) : this.Prunes this l :=
  ⟨fun _ => .inl rfl, fun _ h => h, fun _ _ => rfl, rfl, rfl, rfl, rfl, rfl⟩

omit [DecidableEq W] in
theorem Prunes.trans {other : Subscriptions W S L M} (h : this.Prunes that l)
    (h' : that.Prunes other l) : this.Prunes other l where
  subscription st := by
    rcases h'.subscription st with heq | hnone
    · rw [heq]
      exact h.subscription st
    · exact .inr hnone
  kept sub hsub := h.kept sub (h'.kept sub hsub)
  others l' hne := (h'.others l' hne).trans (h.others l' hne)
  pc := h'.pc.trans h.pc
  jobs := h'.jobs.trans h.jobs
  hash := h'.hash.trans h.hash
  made := h'.made.trans h.made
  asked := h'.asked.trans h.asked

variable [DecidableEq S] [DecidableEq L]

omit [DecidableEq W] in
theorem delSubscriberUnlocked_of_some {st : S} (h : this.subscription st = some sub) :
    this.delSubscriberUnlocked st =
      { this with
        subscribers := Function.update this.subscribers sub.livesource
          ((this.subscribers sub.livesource).erase sub)
        nsubs := Function.update this.nsubs sub.livesource (this.nsubs sub.livesource - 1)
        subscription := Function.update this.subscription sub.ntripState none
        failed := this.failed || decide (sub ∉ this.subscribers sub.livesource) } := by
  rw [delSubscriberUnlocked, h]

omit [DecidableEq W] in
theorem delSubscriberUnlocked_of_none {st : S} (h : this.subscription st = none) :
    this.delSubscriberUnlocked st = this := by
  rw [delSubscriberUnlocked, h]

omit [DecidableEq W] in
/-- A record that is in its list is taken out. -/
theorem Sound.unsubscribe (h : this.Sound) (hsub : sub ∈ this.subscribers l) :
    (this.delSubscriberUnlocked sub.ntripState).Sound ∧
      this.Prunes (this.delSubscriberUnlocked sub.ntripState) l ∧
      sub ∉ (this.delSubscriberUnlocked sub.ntripState).subscribers l ∧
      ∀ sub' ∈ this.subscribers l, sub' ≠ sub →
        sub' ∈ (this.delSubscriberUnlocked sub.ntripState).subscribers l := by
  obtain ⟨rfl, hpoints⟩ := h.listed l sub hsub
  rw [delSubscriberUnlocked_of_some hpoints]
  have hne {l' : L} {sub' : SubscriberRecord S L} (hsub' : sub' ∈ this.subscribers l')
      (hdiffer : sub' ≠ sub) : sub'.ntripState ≠ sub.ntripState := by
    intro heq
    have hpoints' := (h.listed l' sub' hsub').2
    rw [heq, hpoints, Option.some.injEq] at hpoints'
    exact hdiffer hpoints'.symm
  have hmem {l' : L} {sub' : SubscriberRecord S L} : sub' ∈ Function.update this.subscribers
      sub.livesource ((this.subscribers sub.livesource).erase sub) l' ↔
      sub' ≠ sub ∧ sub' ∈ this.subscribers l' := by
    rw [Function.update_apply]
    split
    · next heq => rw [heq, (h.nodup sub.livesource).mem_erase_iff]
    · next hl =>
      refine ⟨fun hsub' => ⟨?_, hsub'⟩, fun hsub' => hsub'.2⟩
      rintro rfl
      exact hl (h.listed l' sub' hsub').1.symm
  refine ⟨?_, ⟨fun st => ?_, fun sub' hsub' => (hmem.mp hsub').2, fun l' hl' => ?_, rfl, rfl, rfl,
    rfl, rfl⟩, fun hsub' => (hmem.mp hsub').1 rfl,
    fun sub' hsub' hdiffer => hmem.mpr ⟨hdiffer, hsub'⟩⟩
  · constructor
    · intro l' sub' hsub'
      obtain ⟨hdiffer, hsub'⟩ := hmem.mp hsub'
      refine ⟨(h.listed l' sub' hsub').1, ?_⟩
      exact (Function.update_of_ne (hne hsub' hdiffer) _ _).trans (h.listed l' sub' hsub').2
    · intro l'
      dsimp only
      rw [Function.update_apply]
      split
      · exact (h.nodup _).erase sub
      · exact h.nodup l'
    · intro l'
      dsimp only
      rw [Function.update_apply, Function.update_apply]
      split
      · have hpos := List.length_pos_of_mem hsub
        rw [List.length_erase_of_mem hsub, h.nsubs]
        omega
      · exact h.nsubs l'
    · intro st sub' hsub'
      dsimp only at hsub'
      rw [Function.update_apply] at hsub'
      split at hsub'
      · contradiction
      · next hst =>
        obtain ⟨rfl, hlist | hinserting⟩ := h.subscribed st sub' hsub'
        · refine ⟨rfl, .inl (hmem.mpr ⟨?_, hlist⟩)⟩
          rintro rfl
          exact hst rfl
        · exact ⟨rfl, .inr hinserting⟩
    · exact h.alone
    · intro w sub' hw
      obtain ⟨hpoints', hlist⟩ := h.inserting w sub' hw
      refine ⟨?_, fun hsub' => hlist (hmem.mp hsub').2⟩
      refine (Function.update_of_ne (fun heq => ?_) _ _).trans hpoints'
      rw [heq, hpoints, Option.some.injEq] at hpoints'
      exact hlist (hpoints' ▸ hsub)
    · intro w st l virt hw
      dsimp only
      rw [Function.update_apply]
      split
      · rfl
      · exact h.adding w st l virt hw
    · intro w st locked next hw sub' hsub'
      dsimp only at hsub'
      rw [Function.update_apply] at hsub'
      split at hsub'
      · contradiction
      · exact h.removing w st locked next hw sub' hsub'
    · dsimp only
      rw [h.failed, decide_eq_false (not_not.mpr hsub), Bool.false_or]
  · dsimp only
    rw [Function.update_apply]
    split
    · exact .inr rfl
    · exact .inl rfl
  · exact Function.update_of_ne hl' _ _

section Loop

variable (killBacklogged : Bool) (backlogEvbuffer : ℕ)

omit [DecidableEq W] in
/-- The loop, for one subscriber that is in the list: it is dropped or it stays. -/
theorem Sound.killSubscriber (h : this.Sound) (hsub : sub ∈ this.subscribers l) :
    (killSubscriber killBacklogged backlogEvbuffer this sub).Sound ∧
      this.Prunes (Subscriptions.killSubscriber killBacklogged backlogEvbuffer this sub) l ∧
      (∀ sub' ∈ this.subscribers l, sub' ≠ sub → sub' ∈
        (Subscriptions.killSubscriber killBacklogged backlogEvbuffer this sub).subscribers l) ∧
      (killBacklogged = false → sub ∉
        (Subscriptions.killSubscriber killBacklogged backlogEvbuffer this sub).subscribers l) := by
  obtain ⟨hsound, hprunes, hgone, hstay⟩ := h.unsubscribe hsub
  rw [Subscriptions.killSubscriber]
  dsimp only
  split
  · split
    · refine ⟨hsound.congr rfl rfl rfl rfl rfl, ?_, hstay, fun _ => hgone⟩
      exact ⟨hprunes.subscription, hprunes.kept, hprunes.others, hprunes.pc, hprunes.jobs,
        hprunes.hash, hprunes.made, hprunes.asked⟩
    · exact ⟨hsound, hprunes, hstay, fun _ => hgone⟩
  · next hkeep =>
    refine ⟨h, .refl this l, fun _ hsub' _ => hsub', fun hk => ?_⟩
    rw [hk] at hkeep
    exact absurd rfl hkeep

omit [DecidableEq W] in
theorem Sound.foldl_killSubscriber {rest : List (SubscriberRecord S L)} (h : this.Sound)
    (hrest : ∀ np ∈ rest, np ∈ this.subscribers l) (hnodup : rest.Nodup) :
    (rest.foldl (Subscriptions.killSubscriber killBacklogged backlogEvbuffer) this).Sound ∧
      this.Prunes
        (rest.foldl (Subscriptions.killSubscriber killBacklogged backlogEvbuffer) this) l ∧
      (killBacklogged = false → ∀ np ∈ rest, np ∉
        (rest.foldl (Subscriptions.killSubscriber killBacklogged backlogEvbuffer) this).subscribers
          l) := by
  induction rest generalizing this with
  | nil => exact ⟨h, .refl this l, fun _ np hnp => absurd hnp List.not_mem_nil⟩
  | cons np rest ih =>
    rw [List.nodup_cons] at hnodup
    obtain ⟨hsound, hprunes, hstay, hgone⟩ := h.killSubscriber killBacklogged backlogEvbuffer
      (hrest np List.mem_cons_self)
    have hrest' : ∀ np' ∈ rest, np' ∈
        (Subscriptions.killSubscriber killBacklogged backlogEvbuffer this np).subscribers l := by
      intro np' hnp'
      refine hstay np' (hrest np' (List.mem_cons_of_mem _ hnp')) ?_
      rintro rfl
      exact hnodup.1 hnp'
    obtain ⟨hsound', hprunes', hgone'⟩ := ih hsound hrest' hnodup.2
    rw [List.foldl_cons]
    refine ⟨hsound', hprunes.trans hprunes', fun hk np' hnp' => ?_⟩
    rcases List.mem_cons.mp hnp' with rfl | hnp'
    · exact fun hmem => hgone hk (hprunes'.kept _ hmem)
    · exact hgone' hk np' hnp'

omit [DecidableEq W] in
/-- **What the loop over the subscribers does.** -/
theorem Sound.killSubscribersUnlocked (h : this.Sound) (l : L) :
    (this.killSubscribersUnlocked l killBacklogged backlogEvbuffer).Sound ∧
      this.Prunes (this.killSubscribersUnlocked l killBacklogged backlogEvbuffer) l ∧
      (killBacklogged = false →
        (this.killSubscribersUnlocked l killBacklogged backlogEvbuffer).subscribers l = []) := by
  obtain ⟨hsound, hprunes, hgone⟩ := h.foldl_killSubscriber killBacklogged backlogEvbuffer
    (fun np hnp => hnp) (h.nodup l)
  refine ⟨hsound, hprunes, fun hk => List.eq_nil_iff_forall_not_mem.mpr fun sub hsub => ?_⟩
  exact hgone hk sub (hprunes.kept sub hsub) hsub

end Loop

omit [DecidableEq W] in
/-- `livesource_end` leaves no subscriber, and its assertion holds. -/
theorem Sound.livesourceEnd (h : this.Sound) (l : L) :
    (this.livesourceEnd l).Sound ∧ this.Prunes (this.livesourceEnd l) l ∧
      (this.livesourceEnd l).subscribers l = [] := by
  obtain ⟨hsound, hprunes, hnil⟩ := h.killSubscribersUnlocked false 0 l
  have hzero := hsound.nsubs l
  rw [hnil rfl] at hzero
  refine ⟨hsound.congr rfl rfl rfl rfl ?_, ?_, hnil rfl⟩
  · change (_ || decide (_ ≠ 0)) = _
    rw [hzero]
    exact Bool.or_false _
  · exact ⟨hprunes.subscription, hprunes.kept, hprunes.others, hprunes.pc, hprunes.jobs,
      hprunes.hash, hprunes.made, hprunes.asked⟩

omit [DecidableEq W] in
/-- `livesource_send_subscribers` drops subscribers at most, and its assertion holds. -/
theorem Sound.livesourceSendSubscribers (h : this.Sound) (l : L) (output : S → ℕ)
    (backlogEvbuffer : ℕ) :
    (this.livesourceSendSubscribers l output backlogEvbuffer).Sound ∧
      this.Prunes (this.livesourceSendSubscribers l output backlogEvbuffer) l := by
  have hassert : decide (((this.subscribers l).length : ℤ) ≠ this.nsubs l) = false := by
    rw [h.nsubs l]
    exact decide_eq_false (not_not.mpr rfl)
  have hmeasured (backlogLen : ℕ → ℕ) : Sound { this with backlogLen := backlogLen } :=
    h.congr rfl rfl rfl rfl rfl
  simp only [Subscriptions.livesourceSendSubscribers, hassert, Bool.or_false]
  split
  · obtain ⟨hsound, hprunes, -⟩ := (hmeasured _).killSubscribersUnlocked true backlogEvbuffer l
    exact ⟨hsound, hprunes.subscription, hprunes.kept, hprunes.others, hprunes.pc, hprunes.jobs,
      hprunes.hash, hprunes.made, hprunes.asked⟩
  · exact ⟨hmeasured _, fun _ => .inl rfl, fun _ h => h, fun _ _ => rfl, rfl, rfl, rfl, rfl, rfl⟩

/-! ### Steps of a worker -/

omit [DecidableEq L] in
/-- The first half of `livesource_add_subscriber`. -/
theorem Sound.add (h : this.Sound) {st : S} {virt : Bool} (hpc : this.pc w = .adding st l virt)
    (address : ℕ) :
    Sound { this.goto w (.inserting ⟨address, l, st, virt⟩) with
      nextAddress := address + 1
      subscription := Function.update this.subscription st (some ⟨address, l, st, virt⟩)
      failed := this.failed || (this.subscription st).isSome } := by
  have hnone := h.adding w st l virt hpc
  have hbut : this.AloneBut w st := h.aloneBut (by rw [hpc]; rfl)
  have hother {st' : S} (hne : st' ≠ st) : Function.update this.subscription st
      (some ⟨address, l, st, virt⟩) st' = this.subscription st' := Function.update_of_ne hne _ _
  have hlisted {l' : L} {sub : SubscriberRecord S L} (hsub : sub ∈ this.subscribers l') :
      sub.ntripState ≠ st := by
    rintro rfl
    rw [(h.listed l' sub hsub).2] at hnone
    contradiction
  have hbusy {w' : W} (hne : w' ≠ w) {st' : S} (hw' : (this.pc w').session = some st') :
      st' ≠ st := by
    rintro rfl
    exact hbut w' hne hw'
  constructor
  · intro l' sub hsub
    exact ⟨(h.listed l' sub hsub).1, (hother (hlisted hsub)).trans (h.listed l' sub hsub).2⟩
  · exact h.nodup
  · exact h.nsubs
  · intro st' sub hsub
    dsimp only at hsub ⊢
    rw [Function.update_apply] at hsub
    split at hsub
    · next heq =>
      obtain rfl := Option.some.inj hsub
      exact ⟨heq.symm, .inr ⟨w, by rw [goto_pc, if_pos rfl]⟩⟩
    · obtain ⟨hst, hlist | ⟨w', hw'⟩⟩ := h.subscribed st' sub hsub
      · exact ⟨hst, .inl hlist⟩
      · refine ⟨hst, .inr ⟨w', ?_⟩⟩
        rw [goto_pc, if_neg, hw']
        rintro rfl
        rw [hpc] at hw'
        contradiction
  · have hsession (w' : W) : ((this.goto w (.inserting ⟨address, l, st, virt⟩)).pc w').session =
        (this.pc w').session := by
      rw [goto_pc]
      split
      · next heq => rw [heq, hpc]; rfl
      · rfl
    intro w₁ w₂ st' hw₁ hw₂
    dsimp only at hw₁ hw₂
    rw [hsession] at hw₁ hw₂
    exact h.alone w₁ w₂ st' hw₁ hw₂
  · intro w' sub hw'
    dsimp only at hw' ⊢
    rw [goto_pc] at hw'
    split at hw'
    · obtain rfl := SubscribePc.inserting.inj hw'
      exact ⟨Function.update_self st _ _, fun hsub => hlisted hsub rfl⟩
    · next hne =>
      obtain ⟨hpoints, hlist⟩ := h.inserting w' sub hw'
      exact ⟨(hother (hbusy hne (by rw [hw']; rfl))).trans hpoints, hlist⟩
  · intro w' st' l' virt' hw'
    dsimp only at hw' ⊢
    rw [goto_pc] at hw'
    split at hw'
    · contradiction
    · next hne =>
      exact (hother (hbusy hne (by rw [hw']; rfl))).trans (h.adding w' st' l' virt' hw')
  · intro w' st' locked next hw' sub hsub
    dsimp only at hw' hsub
    rw [goto_pc] at hw'
    split at hw'
    · contradiction
    · next hne =>
      rw [hother (hbusy hne (by rw [hw']; rfl))] at hsub
      exact h.removing w' st' locked next hw' sub hsub
  · dsimp only
    rw [h.failed, hnone]
    rfl

omit [DecidableEq W] [DecidableEq S] in
theorem mem_insert_iff {sub' : SubscriberRecord S L} :
    sub' ∈ Function.update this.subscribers sub.livesource
      (this.subscribers sub.livesource ++ [sub]) l ↔
      sub' ∈ this.subscribers l ∨ (sub' = sub ∧ l = sub.livesource) := by
  rw [Function.update_apply]
  split
  · next heq => rw [heq, List.mem_append, List.mem_singleton, and_iff_left rfl]
  · next hne => exact ⟨.inl, fun h => h.resolve_right fun h => hne h.2⟩

omit [DecidableEq S] in
/-- The second half of `livesource_add_subscriber`. -/
theorem Sound.insert (h : this.Sound) (hpc : this.pc w = .inserting sub) :
    Sound { this.goto w .idle with
      subscribers := Function.update this.subscribers sub.livesource
        (this.subscribers sub.livesource ++ [sub])
      nsubs := Function.update this.nsubs sub.livesource
        (this.nsubs sub.livesource + 1) } := by
  obtain ⟨hpoints, hlist⟩ := h.inserting w sub hpc
  have hbut : this.AloneBut w sub.ntripState := h.aloneBut (by rw [hpc]; rfl)
  constructor
  · intro l' sub' hsub'
    rcases mem_insert_iff.mp hsub' with hsub' | ⟨rfl, rfl⟩
    · exact h.listed l' sub' hsub'
    · exact ⟨rfl, hpoints⟩
  · intro l'
    dsimp only
    rw [Function.update_apply]
    split
    · refine (h.nodup sub.livesource).append (List.nodup_singleton sub) ?_
      rw [List.disjoint_singleton]
      exact hlist
    · exact h.nodup l'
  · intro l'
    dsimp only
    rw [Function.update_apply, Function.update_apply]
    split
    · rw [h.nsubs, List.length_append]
      rfl
    · exact h.nsubs l'
  · intro st sub' hsub'
    obtain ⟨hst, hlist' | ⟨w', hw'⟩⟩ := h.subscribed st sub' hsub'
    · exact ⟨hst, .inl (mem_insert_iff.mpr (.inl hlist'))⟩
    · by_cases hww : w' = w
      · rw [hww, hpc] at hw'
        obtain rfl := SubscribePc.inserting.inj hw'
        exact ⟨hst, .inl (mem_insert_iff.mpr (.inr ⟨rfl, rfl⟩))⟩
      · exact ⟨hst, .inr ⟨w', by dsimp only; rw [goto_pc, if_neg hww, hw']⟩⟩
  · intro w₁ w₂ st hw₁ hw₂
    dsimp only at hw₁ hw₂
    rw [goto_pc] at hw₁ hw₂
    split at hw₁
    · contradiction
    · split at hw₂
      · contradiction
      · exact h.alone w₁ w₂ st hw₁ hw₂
  · intro w' sub' hw'
    dsimp only at hw'
    rw [goto_pc] at hw'
    split at hw'
    · contradiction
    · next hne =>
      obtain ⟨hpoints', hlist'⟩ := h.inserting w' sub' hw'
      refine ⟨hpoints', fun hsub' => ?_⟩
      rcases mem_insert_iff.mp hsub' with hsub' | ⟨rfl, -⟩
      · exact hlist' hsub'
      · exact hbut w' hne (by rw [hw']; rfl)
  · intro w' st l' virt hw'
    dsimp only at hw'
    rw [goto_pc] at hw'
    split at hw'
    · contradiction
    · exact h.adding w' st l' virt hw'
  · intro w' st locked next hw'
    dsimp only at hw'
    rw [goto_pc] at hw'
    split at hw'
    · contradiction
    · exact h.removing w' st locked next hw'
  · exact h.failed

omit [DecidableEq W] in
/-- What `livesource_del_subscriber` does once it has its locks. -/
theorem Sound.delSubscriber (h : this.Sound) {st : S} {locked : L} {next : Option L}
    (hpc : this.pc w = .removing st locked next) :
    (this.delSubscriber st locked).Sound ∧ this.Prunes (this.delSubscriber st locked) locked ∧
      (this.delSubscriber st locked).subscription st = none := by
  cases hsub : this.subscription st with
  | none =>
    have hsame : this.delSubscriber st locked = this := by
      simp only [Subscriptions.delSubscriber, delSubscriberUnlocked_of_none hsub, hsub,
        Option.any_none, Bool.or_false]
    rw [hsame]
    exact ⟨h, .refl this locked, hsub⟩
  | some sub =>
    have hlocked := h.removing w st locked next hpc sub hsub
    obtain ⟨rfl, hlist | ⟨w', hw'⟩⟩ := h.subscribed st sub hsub
    · obtain ⟨hsound, hprunes, -⟩ := h.unsubscribe hlist
      have hsame : this.delSubscriber sub.ntripState locked =
          this.delSubscriberUnlocked sub.ntripState := by
        simp only [Subscriptions.delSubscriber, hsub, Option.any_some, hlocked, ne_eq,
          not_true_eq_false, decide_false, Bool.or_false]
      rw [hsame]
      refine ⟨hsound, hlocked ▸ hprunes, ?_⟩
      rw [delSubscriberUnlocked_of_some hsub]
      exact Function.update_self _ _ _
    · -- the worker that would insert the record is the one that is removing it
      have heq := h.alone w w' sub.ntripState (by rw [hpc]; rfl) (by rw [hw']; rfl)
      rw [heq, hpc] at hw'
      contradiction

variable [DecidableEq M] {mountpoint : L → M} {memory : Bool}

theorem Sound.work (h : this.Sound) (hwork : this.work mountpoint w memory = some that) :
    that.Sound := by
  rw [Subscriptions.work] at hwork
  split at hwork
  · contradiction
  · next job hpc =>
    obtain rfl := Option.some.inj hwork
    have hidle : (this.goto w .idle).Sound :=
      h.goto_free (by rw [hpc]; rfl) rfl
    exact hidle.congr rfl rfl rfl rfl rfl
  · next st l virt hpc =>
    split at hwork
    · obtain rfl := Option.some.inj hwork
      exact h.goto_free (by rw [hpc]; rfl) rfl
    · obtain rfl := Option.some.inj hwork
      exact h.add hpc this.nextAddress
  · next sub hpc =>
    obtain rfl := Option.some.inj hwork
    exact h.insert hpc
  · next st l hpc =>
    have hbut : this.AloneBut w st := h.aloneBut (by rw [hpc]; rfl)
    have hold : (this.pc w).inserts = none := by rw [hpc]; rfl
    split at hwork
    · next hnone =>
      obtain rfl := Option.some.inj hwork
      refine h.goto hold rfl ?_ ?_ ?_
      · rintro _ ⟨⟩
        exact hbut
      · rintro _ _ _ ⟨⟩
        exact hnone
      · rintro _ _ _ ⟨⟩
    · next sub hsub =>
      obtain rfl := Option.some.inj hwork
      refine h.goto hold rfl ?_ ?_ ?_
      · rintro _ ⟨⟩
        exact hbut
      · rintro _ _ _ ⟨⟩
      · rintro _ _ _ ⟨⟩ sub' hsub'
        rw [hsub, Option.some.injEq] at hsub'
        rw [hsub']
  · next st hpc =>
    have hbut : this.AloneBut w st := h.aloneBut (by rw [hpc]; rfl)
    have hold : (this.pc w).inserts = none := by rw [hpc]; rfl
    split at hwork
    · obtain rfl := Option.some.inj hwork
      exact h.goto_free hold rfl
    · next sub hsub =>
      obtain rfl := Option.some.inj hwork
      refine h.goto hold rfl ?_ ?_ ?_
      · rintro _ ⟨⟩
        exact hbut
      · rintro _ _ _ ⟨⟩
      · rintro _ _ _ ⟨⟩ sub' hsub'
        rw [hsub, Option.some.injEq] at hsub'
        rw [hsub']
  · next st locked hpc =>
    obtain rfl := Option.some.inj hwork
    obtain ⟨hsound, hprunes, -⟩ := h.delSubscriber hpc
    refine hsound.goto_free ?_ rfl
    rw [hprunes.pc, hpc]
    rfl
  · next st locked l hpc =>
    obtain rfl := Option.some.inj hwork
    obtain ⟨hsound, hprunes, hnone⟩ := h.delSubscriber hpc
    have hbut : this.AloneBut w st := h.aloneBut (by rw [hpc]; rfl)
    refine hsound.goto ?_ rfl ?_ ?_ ?_
    · rw [hprunes.pc, hpc]
      rfl
    · rintro _ ⟨⟩
      rw [AloneBut, hprunes.pc]
      exact hbut
    · rintro _ _ _ ⟨⟩
      exact hnone
    · rintro _ _ _ ⟨⟩
  · next l hpc =>
    split at hwork
    · obtain rfl := Option.some.inj hwork
      have hending : (this.goto w (.ending l)).Sound :=
        h.goto_free (by rw [hpc]; rfl) rfl
      exact hending.congr rfl rfl rfl rfl rfl
    · contradiction
  · next l hpc =>
    obtain rfl := Option.some.inj hwork
    obtain ⟨hsound, hprunes, -⟩ := h.livesourceEnd l
    refine hsound.goto_free ?_ rfl
    rw [hprunes.pc, hpc]
    rfl

end Subscriptions

end ChilopodCaster
