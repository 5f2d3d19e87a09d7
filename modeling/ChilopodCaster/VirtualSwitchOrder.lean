import ChilopodCaster.Lib.Transition
import ChilopodCaster.VirtualSwitchSound

/-!
# Runs that keep switches and packets apart

The invariant is kept by every step of a run in which a switch of a client is not decided while
another one is under way, and no packet passes the tests for a client in the meantime. It is not
kept otherwise: the position of the new base is sent when the switch is decided, but the old base
sends until the job has been run.

## Main definitions

* `VirtualClients.KeepsApart`, `VirtualClients.Orderly` — the steps of such runs

## Main results

* `VirtualClients.Invariant.step` — they keep the invariant
* `VirtualClients.orderly_neverMixes` — what a client is sent in such a run
-/

namespace ChilopodCaster

open Rtcm ClientOutput

namespace VirtualClients

variable {W S L M : Type} {this that : VirtualClients W S L M} {mountpoint : L → M} {w : W} {st : S}
  {l : L} {s : Sending S L}

/-! ### Steps of workers -/

variable [DecidableEq W] [DecidableEq S] [DecidableEq L] [DecidableEq M]

/-- A job that subscribes a session begins with memory for the name of the mountpoint. -/
def HasMemory (this : VirtualClients W S L M) : SubscribeStep W S L → Prop
  | .take _ i memory => memory = true ∨ ∀ job ∈ this.subs.jobs[i]?, job.target = none
  | _ => True

/-- What a step of `Subscriptions` does here. -/
theorem Invariant.advances_step {a : SubscribeStep W S L} {subs : Subscriptions W S L M}
    (h : this.Invariant mountpoint) (henabled : this.enabled a = true) (hmemory : this.HasMemory a)
    (hstep : this.subs.step (fun _ => true) mountpoint a = some subs) :
    (∃ locked, this.subs.Advances subs locked ∧ ∀ l, locked = some l → this.sending l = none) ∧
      ∀ w job, this.subs.pc w = .found job → subs.pc w = .found job := by
  -- a worker that is not in `ntripsrv_redo_virtual_pos` moves
  have hfound {w : W} (hw : (this.subs.pc w).isFound = false)
      (hothers : ∀ w', w' ≠ w → subs.pc w' = this.subs.pc w') (w' : W) (job : SubscribeJob S L)
      (hpc : this.subs.pc w' = .found job) : subs.pc w' = .found job := by
    rw [hothers w' ?_, hpc]
    rintro rfl
    rw [hpc] at hw
    contradiction
  cases a with
  | livesourceConnected l =>
    rw [Subscriptions.step] at hstep
    split at hstep
    · obtain rfl := Option.some.inj hstep
      exact ⟨⟨none, .of_eq rfl rfl rfl, not_locked⟩, fun _ _ => id⟩
    · contradiction
  | livesourceFind w st l create => contradiction
  | ntripUnregisterLivesource l =>
    rw [Subscriptions.step] at hstep
    split at hstep
    · obtain rfl := Option.some.inj hstep
      refine ⟨⟨none, .of_targets (fun st l' => or_congr_right ?_) (fun _ _ => id) fun _ _ _ => id,
        not_locked⟩, fun _ _ => id⟩
      rw [List.map_append, List.mem_append]
      exact or_iff_left fun hdel => absurd (List.mem_singleton.mp hdel) (Option.some_ne_none _)
    · contradiction
  | take w i memory =>
    rw [Subscriptions.step] at hstep
    split at hstep
    · next job hpc hjob =>
      obtain rfl := Option.some.inj hstep
      refine ⟨⟨none, Subscriptions.advances_take hpc hjob (hmemory.imp_right fun hnone => ?_),
        not_locked⟩, ?_⟩
      · exact hnone job hjob
      · exact hfound (by rw [hpc]; rfl) fun w' hw' => Function.update_of_ne hw' _ _
    · contradiction
  | livesourceDelSubscriber w st =>
    rw [Subscriptions.step] at hstep
    split at hstep
    · next hpc =>
      obtain rfl := Option.some.inj hstep
      refine ⟨⟨none, .goto rfl rfl (by rw [hpc]; rfl) (fun _ _ => id) fun _ _ _ => id, not_locked⟩,
        ?_⟩
      exact hfound (by rw [hpc]; rfl) fun w' hw' => Function.update_of_ne hw' _ _
    · contradiction
  | work w memory =>
    simp only [enabled, Bool.and_eq_true, Bool.not_eq_true', Option.all_eq_true,
      Option.isNone_iff_eq_none] at henabled
    obtain ⟨⟨hnot, hlocks⟩, -⟩ := henabled
    refine ⟨⟨_, h.subs.sound.advances_work hnot hstep, hlocks⟩, ?_⟩
    exact hfound hnot fun w' hw' => h.subs.sound.work_others hstep hw'
  | livesourceSendSubscribers l output backlogEvbuffer => contradiction
  | ntripDecrefEnd st =>
    obtain rfl := Option.some.inj hstep
    exact ⟨⟨none, .of_eq rfl rfl rfl, not_locked⟩, fun _ _ => id⟩

theorem Invariant.subscribe {a : SubscribeStep W S L} {subs : Subscriptions W S L M}
    (h : this.Invariant mountpoint) (henabled : this.enabled a = true)
    (hserial : this.subs.Serial a) (hmemory : this.HasMemory a)
    (hstep : this.subs.step (fun _ => true) mountpoint a = some subs)
    (recording : W → Option (S × M)) :
    Invariant mountpoint { this with subs := subs, recording := recording } := by
  obtain ⟨⟨locked, hadvances, hlocked⟩, hfound⟩ := h.advances_step henabled hmemory hstep
  refine h.advance (h.subs.step hserial hstep) hadvances hlocked rfl h.redo (fun _ _ => id) rfl ?_
  intro st hst
  refine (h.posSent st hst).imp_right fun hsent => hsent.imp_left ?_
  rintro ⟨w, l, hpc, hpositions⟩
  exact ⟨w, l, hfound w _ hpc, hpositions⟩

/-! ### Steps of `ntripsrv_redo_virtual_pos` -/

/-- A packet has passed the tests for the session, and is not sent yet. -/
def Passing (this : VirtualClients W S L M) (st : S) : Prop :=
  ∃ l, ∃ s ∈ this.sending l, ∃ x ∈ s.passed, x.1.ntripState = st

/-- A switch is decided. -/
theorem Invariant.redoVirtualPos {create : Bool} {subs : Subscriptions W S L M}
    (h : this.Invariant mountpoint) (hrests : ¬ this.subs.UnderWay st)
    (hpassing : ¬ this.Passing st)
    (hstep : this.subs.step (fun _ => true) mountpoint (.livesourceFind w st l create) = some subs)
    (a : Option M) : Invariant mountpoint { this with
      subs := subs
      locked := Function.update this.locked st true
      redo := Function.update this.redo w .decided
      output := Function.update this.output st
        (this.output st ++ [.switched a (mountpoint l)]) } := by
  obtain ⟨hidle, hpc, hjobs, hsubscribers⟩ := Subscriptions.find_spec hstep
  have htargets (st' : S) (l' : L) :
      subs.Targets st' l' ↔ some (st, l) = some (st', l') ∨ this.subs.Targets st' l' :=
    Subscriptions.targets_begin hpc hjobs (by rw [hidle]; rfl)
  have hunder (st' : S) (hne : st' ≠ st) : subs.UnderWay st' ↔ this.subs.UnderWay st' := by
    refine exists_congr fun l' => (htargets st' l').trans (or_iff_right fun heq => hne ?_)
    exact (Prod.mk.inj (Option.some.inj heq)).1.symm
  have hsame (st' : S) (hne : st' ≠ st) : Function.update this.output st
      (this.output st ++ [.switched a (mountpoint l)]) st' = this.output st' :=
    Function.update_of_ne hne _ _
  have hswitched : Function.update this.output st
      (this.output st ++ [.switched a (mountpoint l)]) st =
      this.output st ++ [.switched a (mountpoint l)] := Function.update_self _ _ _
  refine ⟨h.subs.step (a := .livesourceFind w st l create) trivial hstep, h.cache, ?_, ?_, ?_, ?_,
    ?_, ?_⟩
  · intro w' p hw'
    dsimp only at hw'
    rw [Function.update_apply] at hw'
    split at hw'
    · contradiction
    · exact h.redo w' p hw'
  · intro st' l' hl'
    dsimp only
    rcases (htargets st' l').mp hl' with heq | hl'
    · obtain ⟨rfl, rfl⟩ := Prod.mk.inj (Option.some.inj heq)
      rw [hswitched, current_append_switched]
    · rw [hsame st' fun heq => hrests (heq ▸ ⟨l', hl'⟩)]
      exact h.targets st' l' hl'
  · intro l' np hnp
    dsimp only at hnp ⊢
    rw [hsubscribers] at hnp
    by_cases hst : np.ntripState = st
    · rw [hst]
      exact .inl ⟨l, (htargets st l).mpr (.inl rfl)⟩
    · rw [hunder _ hst, hsame _ hst]
      exact h.listed l' np hnp
  · intro l' s hs
    refine (h.sending l' s hs).mono ?_ fun x hx => ?_
    · dsimp only
      rw [hsubscribers]
      exact fun _ => id
    · have hne : x.1.ntripState ≠ st := fun heq => hpassing ⟨l', s, hs, x, hx, heq⟩
      dsimp only
      rw [hunder _ hne, hsame _ hne]
      exact ⟨id, id⟩
  · intro st' hst'
    by_cases hst : st' = st
    · subst hst
      refine .inr (.inl ⟨w, l, ?_, ?_⟩)
      · dsimp only
        rw [hpc, Function.update_self]
      · dsimp only
        rw [Function.update_self]
        rfl
    · rcases h.posSent st' hst' with hpos | hredoing | hsends
      · left
        dsimp only
        rw [hsame st' hst]
        exact hpos
      · refine .inr (.inl ((hredoing.update (w := w) (fun w' hw' => ?_)
          fun w' hw' => ?_).resolve_left ?_))
        · dsimp only
          rw [hpc, Function.update_of_ne hw']
        · exact Function.update_of_ne hw' _ _
        · rintro ⟨l', hw', -⟩
          rw [hidle] at hw'
          contradiction
      · exact .inr (.inr hsends)
  · intro st'
    by_cases hst : st' = st
    · dsimp only
      rw [hst, hswitched]
      exact (h.neverMixes st).append_switched a (mountpoint l)
    · dsimp only
      rw [hsame st' hst]
      exact h.neverMixes st'

/-- The steps once a switch is decided. The position from the cache is sent before the job is
queued, or the client is made to wait for one. -/
theorem Invariant.redoNext (h : this.Invariant mountpoint)
    (hstep : this.redoNext mountpoint w true = some that) : that.Invariant mountpoint := by
  rw [VirtualClients.redoNext] at hstep
  split at hstep
  · next st l hpc hredo =>
    split at hstep
    · next p hp =>
      obtain rfl := Option.some.inj hstep
      have hpos := (h.cache (mountpoint l)).posPacket hp
      have hgoto : Invariant mountpoint { this with
          redo := Function.update this.redo w (.position p) } := by
        refine h.redoGoto hpc ?_ fun _ => .inl rfl
        rintro _ ⟨⟩
        exact hpos
      refine hgoto.setState fun _ => .inr (.inl ⟨w, l, hpc, ?_⟩)
      dsimp only
      rw [Function.update_self]
      rfl
    · obtain rfl := Option.some.inj hstep
      have hwait : Invariant mountpoint { this with
          rtcmClientState := Function.update this.rtcmClientState st .posWait } := by
        refine h.setState ?_
        rintro ⟨⟩
      refine hwait.redoGoto hpc ?_ fun hok => ?_
      · rintro _ ⟨⟩
      · dsimp only at hok
        rw [Function.update_self] at hok
        contradiction
  · next st l p hpc hredo =>
    obtain rfl := Option.some.inj hstep
    have hpos := h.redo w p hredo
    have hcurrent := h.targets st l (.inl ⟨w, by rw [hpc]; rfl⟩)
    have hsent : Positioned ((this.packetSend (mountpoint l) p st true).output st) := by
      rw [show (this.packetSend (mountpoint l) p st true).output st =
        this.output st ++ [.packet (mountpoint l) p] from Function.update_self _ _ _]
      exact positioned_append hcurrent hpos
    refine (h.packetSend hcurrent (.inl hpos)).redoGoto hpc ?_ fun _ => .inr hsent
    rintro _ ⟨⟩
  · next st l hpc hredo =>
    obtain ⟨subs, hsubs, rfl⟩ := Option.map_eq_some_iff.mp hstep
    have hinvariant := h.subs.step (a := .work w true) trivial hsubs
    rw [Subscriptions.step, Subscriptions.work, hpc] at hsubs
    obtain rfl := Option.some.inj hsubs
    refine h.advance hinvariant (Subscriptions.advances_queue hpc) not_locked rfl ?_
      (fun _ _ => id) rfl fun st' hst' => ?_
    · intro w' p hw'
      dsimp only at hw'
      rw [Function.update_apply] at hw'
      split at hw'
      · contradiction
      · exact h.redo w' p hw'
    · refine (h.posSent st' hst').imp_right fun hsent => hsent.imp_left ?_
      intro hredoing
      refine (hredoing.update (w := w) (fun w' hw' => Function.update_of_ne hw' _ _)
        fun w' hw' => Function.update_of_ne hw' _ _).resolve_left ?_
      rintro ⟨l', -, hpositions⟩
      rw [hredo] at hpositions
      contradiction
  · contradiction

/-! ### Steps of `livesource_send_subscribers` -/

omit [DecidableEq W] [DecidableEq M] in
/-- No packet for a subscriber has passed the tests, and none does. -/
theorem Invariant.skip (h : this.Invariant mountpoint) (hs : this.sending l = some s)
    (hnone : s.passed = none) {s' : Sending S L} (hrest : ∀ np ∈ s'.rest, np ∈ s.rest)
    (hpos : s'.isPos = s.isPos) (hpacket : s'.packet = s.packet) (hnone' : s'.passed = none) :
    (this.goOn l s').Invariant mountpoint := by
  have hsound := h.sending l s hs
  refine h.goOn ⟨fun np hnp => hsound.rest np (hrest np hnp), ?_, ?_⟩ ?_
  · rw [hpos, hpacket]
    exact hsound.isPos
  · rw [hnone']
    rintro _ ⟨⟩
  · rintro s'' hs'' st ⟨-, np, hpassed, -⟩
    obtain rfl := Option.some.inj (hs.symm.trans hs'')
    rw [hnone] at hpassed
    contradiction

/-- The tests let a packet pass for the subscriber. -/
def Passes (this : VirtualClients W S L M) (s : Sending S L) (np : SubscriberRecord S L)
    (backlogLen : ℕ) : Prop :=
  this.subs.ended np.ntripState = false ∧ backlogLen ≤ s.backlogEvbuffer ∧
    (this.rtcmClientState np.ntripState = .posWait → s.isPos = true)

omit [DecidableEq W] [DecidableEq M] in
/-- The tests for the next subscriber. -/
theorem Invariant.test (h : this.Invariant mountpoint) (hs : this.sending l = some s)
    (hnone : s.passed = none) {np : SubscriberRecord S L} {rest : List (SubscriberRecord S L)}
    (hnp : s.rest = np :: rest) {backlogLen : ℕ}
    (hrests : this.Passes s np backlogLen → ¬ this.subs.UnderWay np.ntripState) :
    (this.test l { s with rest := rest } np backlogLen).Invariant mountpoint := by
  have hsound := h.sending l s hs
  have hsub (np' : SubscriberRecord S L) (hnp' : np' ∈ rest) : np' ∈ s.rest := by
    rw [hnp]
    exact List.mem_cons_of_mem _ hnp'
  have hlisted : np ∈ this.subs.subscribers l := by
    refine hsound.rest np ?_
    rw [hnp]
    exact List.mem_cons_self
  rw [VirtualClients.test]
  split
  · exact h.skip hs hnone hsub rfl rfl hnone
  next hended =>
  have hmeasured : Invariant mountpoint { this with
      subs := { this.subs with
        backlogLen := Function.update this.subs.backlogLen np.address backlogLen } } := by
    have hsame : this.subs.Advances { this.subs with
        backlogLen := Function.update this.subs.backlogLen np.address backlogLen } none :=
      .of_eq rfl rfl rfl
    exact h.advance (h.subs.congr rfl rfl rfl rfl rfl rfl rfl) hsame not_locked rfl h.redo
      (fun _ _ => id) rfl h.posSent
  -- the packet passes
  have hpass {x : Bool} (hpasses : this.Passes s np backlogLen)
      (hpos : s.isPos = true ∨ x = false ∧ Positioned (this.output np.ntripState)) :
      Invariant mountpoint (VirtualClients.goOn { this with
        subs := { this.subs with
          backlogLen := Function.update this.subs.backlogLen np.address backlogLen } } l
        { s with rest := rest, passed := some (np, x) }) := by
    refine hmeasured.goOn ⟨fun np' hnp' => hsound.rest np' (hsub np' hnp'), hsound.isPos, ?_⟩ ?_
    · rintro _ ⟨⟩
      exact ⟨hlisted, hrests hpasses, hpos⟩
    · rintro s' hs' st ⟨-, np', hpassed, -⟩
      obtain rfl := Option.some.inj (hs.symm.trans hs')
      rw [hnone] at hpassed
      contradiction
  dsimp only
  split
  · exact hmeasured.skip hs hnone hsub rfl rfl hnone
  next hbacklog =>
  have hpasses (hwait : this.rtcmClientState np.ntripState = .posWait → s.isPos = true) :
      this.Passes s np backlogLen :=
    ⟨Bool.eq_false_iff.mpr hended, Nat.le_of_not_lt hbacklog, hwait⟩
  split
  · split
    · exact hmeasured.skip hs hnone hsub rfl rfl hnone
    · next hpos =>
      have hpos : s.isPos = true := by simpa using hpos
      exact hpass (hpasses fun _ => hpos) (.inl hpos)
  · next hwait =>
    have hok : this.rtcmClientState np.ntripState = .posOk := by
      cases hstate : this.rtcmClientState np.ntripState with
      | posWait => exact absurd hstate hwait
      | posOk => rfl
    have hpasses := hpasses fun heq => absurd heq hwait
    refine hpass hpasses (.inr ⟨rfl, ?_⟩)
    rcases h.posSent np.ntripState hok with hpos | hredoing | ⟨l', s', hs', -, np', hpassed, heq⟩
    · exact hpos
    · exact absurd hredoing.underWay (hrests hpasses)
    · -- another thread would have the session in its list, too
      have hlisted' := ((h.sending l' s' hs').passed _ hpassed).listed
      obtain rfl := h.unique hlisted hlisted' heq
      obtain rfl := Option.some.inj (hs.symm.trans hs')
      rw [hnone] at hpassed
      contradiction

/-- A position packet that has passed the tests is sent as it is: there is memory, and the filter of
the client passes it. -/
def Delivers (filter : S → Option Filter) (s : Sending S L) (np : SubscriberRecord S L)
    (memory : Bool) : Prop :=
  s.isPos = true →
    memory = true ∧ ∀ f ∈ filter np.ntripState, rtcmFilterPass f s.packet = some true

variable {filter : S → Option Filter} {junk : ℕ → Byte} {memory : Bool}

omit [DecidableEq W] [DecidableEq M] in
/-- A packet that has passed the tests is sent, or dropped by the filter. -/
theorem Invariant.deliver (h : this.Invariant mountpoint) (hs : this.sending l = some s)
    {np : SubscriberRecord S L} (hpassed : s.passed = some (np, false))
    (hdelivers : Delivers filter s np memory) {p pconv : Option Packet}
    (hconvert : s.convert junk (filter np.ntripState) = some (p, pconv)) :
    Invariant mountpoint (p.elim (this.goOn l { s with passed := none, pconv := pconv }) fun p =>
      (this.goOn l { s with passed := none, pconv := pconv }).packetSend (mountpoint l) p
        np.ntripState memory) := by
  have hsound := h.sending l s hs
  have hnp := hsound.passed _ hpassed
  have hcurrent : current (this.output np.ntripState) = some (mountpoint l) := hnp.current h
  -- the thread goes on once the client has its position
  have hgoOn {that : VirtualClients W S L M} (hthat : that.Invariant mountpoint)
      (hsubs : that.subs = this.subs) (hs' : that.sending l = some s)
      (hpos : Positioned (that.output np.ntripState)) :
      (that.goOn l { s with passed := none, pconv := pconv }).Invariant mountpoint := by
    refine hthat.goOn ⟨?_, hsound.isPos, ?_⟩ ?_
    · rw [hsubs]
      exact hsound.rest
    · rintro _ ⟨⟩
    · rintro s'' hs'' st ⟨-, np', hpassed', rfl⟩
      obtain rfl := Option.some.inj (hs'.symm.trans hs'')
      obtain ⟨rfl, -⟩ := Prod.mk.inj (Option.some.inj (hpassed.symm.trans hpassed'))
      exact .inl hpos
  have hsend {p : Packet} (hp : rtcmPacketIsPos p = true ∨ Positioned (this.output np.ntripState)) :
      ((this.packetSend (mountpoint l) p np.ntripState true).goOn l
        { s with passed := none, pconv := pconv }).Invariant mountpoint := by
    refine hgoOn (h.packetSend hcurrent hp) rfl hs ?_
    rw [show (this.packetSend (mountpoint l) p np.ntripState true).output np.ntripState =
      this.output np.ntripState ++ [.packet (mountpoint l) p] from Function.update_self _ _ _]
    exact hp.elim (positioned_append hcurrent) Positioned.append
  rcases hnp.positioned with hisPos | ⟨-, hpos⟩
  · obtain ⟨rfl, hpass⟩ := hdelivers hisPos
    have hpacket : p = some s.packet := by
      cases hfilter : filter np.ntripState with
      | none =>
        rw [hfilter] at hconvert
        exact (Prod.mk.inj (Option.some.inj hconvert)).1.symm
      | some f =>
        rw [hfilter, Sending.convert, hpass f hfilter] at hconvert
        exact (Prod.mk.inj (Option.some.inj hconvert)).1.symm
    rw [hpacket]
    exact hsend (.inl (hsound.isPos.symm.trans hisPos))
  · cases p with
    | none => exact hgoOn h rfl hs hpos
    | some p =>
      cases memory with
      | false => exact hgoOn h rfl hs hpos
      | true => exact hsend (.inr hpos)

omit [DecidableEq W] [DecidableEq M] in
/-- The loop ends: no thread sends from the livesource then, and its list is pruned at most. -/
theorem Invariant.sendEnd (h : this.Invariant mountpoint) (hs : this.sending l = some s)
    (hnone : s.passed = none) : Invariant mountpoint { this with
      subs := if s.nbacklogged = 0 then this.subs
        else this.subs.killSubscribersUnlocked l true s.backlogEvbuffer
      sending := Function.update this.sending l none } := by
  obtain ⟨hprunes, hsubs⟩ : this.subs.Prunes (if s.nbacklogged = 0 then this.subs else
      this.subs.killSubscribersUnlocked l true s.backlogEvbuffer) l ∧
      Subscriptions.Invariant (fun _ => true) (if s.nbacklogged = 0 then this.subs else
        this.subs.killSubscribersUnlocked l true s.backlogEvbuffer) := by
    split
    · exact ⟨.refl _ _, h.subs⟩
    · obtain ⟨hsound, hprunes, -⟩ := h.subs.sound.killSubscribersUnlocked true s.backlogEvbuffer l
      exact ⟨hprunes, hsound, h.subs.asks.prunes hprunes⟩
  refine h.advance hsubs hprunes.advances ?_ rfl h.redo (fun l' s' hs' => ?_) rfl fun st hst => ?_
  · rintro _ ⟨⟩
    exact Function.update_self _ _ _
  · dsimp only at hs'
    rw [Function.update_apply] at hs'
    split at hs'
    · contradiction
    · exact hs'
  · rcases h.posSent st hst with hpos | ⟨w, l', hpc, hpositions⟩ | ⟨l', s', hs', hsends⟩
    · exact .inl hpos
    · refine .inr (.inl ⟨w, l', ?_, hpositions⟩)
      rw [← hpc]
      exact congrFun hprunes.pc w
    · refine .inr (.inr ⟨l', s', ?_, hsends⟩)
      refine (Function.update_of_ne ?_ _ _).trans hs'
      rintro rfl
      obtain rfl := Option.some.inj (hs.symm.trans hs')
      obtain ⟨-, np, hpassed, -⟩ := hsends
      rw [hnone] at hpassed
      contradiction

/-- A step of a thread in `livesource_send_subscribers` that keeps packets and switches apart: a
packet passes the tests for a client only if no switch of it is under way, and a position packet is
delivered. -/
def KeepsApart (filter : S → Option Filter) (this : VirtualClients W S L M) (s : Sending S L)
    (backlogLen : ℕ) (memory : Bool) : Prop :=
  (s.passed = none → ∀ np ∈ s.rest.head?, this.Passes s np backlogLen →
    ¬ this.subs.UnderWay np.ntripState) ∧
  ∀ x ∈ s.passed, Delivers filter s x.1 memory

omit [DecidableEq W] [DecidableEq M] in
theorem Invariant.send {backlogLen : ℕ} (h : this.Invariant mountpoint)
    (hs : this.sending l = some s) (happart : KeepsApart filter this s backlogLen memory)
    (hstep : this.send mountpoint filter junk l s backlogLen memory = some that) :
    that.Invariant mountpoint := by
  have hsound := h.sending l s hs
  rw [VirtualClients.send] at hstep
  split at hstep
  · next np hpassed =>
    obtain rfl := Option.some.inj hstep
    have hnp := hsound.passed _ hpassed
    have hisPos : s.isPos = true :=
      hnp.positioned.resolve_right fun hfalse => Bool.true_eq_false.mp hfalse.1
    have hgoOn : (this.goOn l { s with passed := some (np, false) }).Invariant mountpoint := by
      refine h.goOn ⟨hsound.rest, hsound.isPos, ?_⟩ ?_
      · rintro _ ⟨⟩
        exact ⟨hnp.listed, hnp.rests, .inl hisPos⟩
      · rintro s' hs' st ⟨-, np', hpassed', -⟩
        obtain rfl := Option.some.inj (hs.symm.trans hs')
        exact absurd (hpassed.symm.trans hpassed') (by simp)
    refine hgoOn.setState fun _ => .inr (.inr ⟨l, _, Function.update_self _ _ _, hisPos, ?_⟩)
    exact ⟨np, rfl, rfl⟩
  · next np hpassed =>
    obtain ⟨⟨p, pconv⟩, hconvert, hthat⟩ := Option.bind_eq_some_iff.mp hstep
    have hdeliver := h.deliver hs hpassed (happart.2 _ hpassed) hconvert
    cases p with
    | none =>
      obtain rfl := Option.some.inj hthat
      exact hdeliver
    | some p =>
      obtain rfl := Option.some.inj hthat
      exact hdeliver
  · next np rest hnone hrest =>
    obtain rfl := Option.some.inj hstep
    exact h.test hs hnone hrest (happart.1 hnone np (by rw [hrest]; rfl))
  · next hnone hrest =>
    obtain rfl := Option.some.inj hstep
    exact h.sendEnd hs hnone

omit [DecidableEq W] [DecidableEq M] in
/-- `livesource_send_subscribers` takes the lock of the livesource. -/
theorem Invariant.sendBegin (h : this.Invariant mountpoint) (hnone : this.sending l = none)
    (packet : Packet) (backlogEvbuffer : ℕ) :
    Invariant mountpoint { this.goOn l ⟨packet, rtcmPacketIsPos packet, backlogEvbuffer,
        this.subs.subscribers l, none, 0, none⟩ with
      subs := { this.subs with
        failed := this.subs.failed ||
          decide (((this.subs.subscribers l).length : ℤ) ≠ this.subs.nsubs l) } } := by
  have hgoOn : (this.goOn l ⟨packet, rtcmPacketIsPos packet, backlogEvbuffer,
      this.subs.subscribers l, none, 0, none⟩).Invariant mountpoint := by
    refine h.goOn ⟨fun _ => id, rfl, ?_⟩ ?_
    · rintro _ ⟨⟩
    · intro s hs
      rw [hnone] at hs
      contradiction
  have hassert : (this.subs.failed ||
      decide (((this.subs.subscribers l).length : ℤ) ≠ this.subs.nsubs l)) = this.subs.failed := by
    rw [h.subs.sound.nsubs l, decide_eq_false (not_not.mpr rfl)]
    exact Bool.or_false _
  rw [hassert]
  exact hgoOn

/-! ### Runs -/

/-- The steps that keep switches and packets apart. A switch is decided only if no other one of the
client is under way and no packet is about to be sent to it; there is memory for a switch; workers
serve one session one after the other; and see `KeepsApart`. -/
def Orderly (filter : S → Option Filter) (this : VirtualClients W S L M) :
    VirtualStep W S L M → Prop
  | .subscribe a => this.subs.Serial a ∧ this.HasMemory a
  | .redoVirtualPos _ st _ _ _ _ => ¬ this.subs.UnderWay st ∧ ¬ this.Passing st
  | .redoNext _ memory => memory = true
  | .send l backlogLen memory =>
    ∀ s ∈ this.sending l, KeepsApart filter this s backlogLen memory
  | _ => True

/-- **Every such step keeps the invariant.** -/
theorem Invariant.step {a : VirtualStep W S L M} (h : this.Invariant mountpoint)
    (horderly : Orderly filter this a)
    (hstep : this.step mountpoint filter junk a = some that) : that.Invariant mountpoint := by
  cases a with
  | subscribe a =>
    rw [VirtualClients.step] at hstep
    split at hstep
    · next henabled =>
      obtain ⟨subs, hsubs, rfl⟩ := Option.map_eq_some_iff.mp hstep
      exact h.subscribe henabled horderly.1 horderly.2 hsubs _
    · contradiction
  | redoVirtualPos w st l create currentLivesourceLive closer =>
    rw [VirtualClients.step] at hstep
    split at hstep
    · obtain ⟨subs, hsubs, rfl⟩ := Option.map_eq_some_iff.mp hstep
      exact h.redoVirtualPos horderly.1 horderly.2 hsubs _
    · contradiction
  | redoNext w memory =>
    obtain rfl : memory = true := horderly
    exact h.redoNext hstep
  | setVirtualMountpoint w =>
    obtain ⟨_, -, rfl⟩ := Option.map_eq_some_iff.mp hstep
    exact h.keep rfl rfl h.redo rfl rfl h.posSent
  | rtcmHandlerPos m p now =>
    rw [VirtualClients.step] at hstep
    split at hstep
    · next hp =>
      obtain ⟨type, -, rfl⟩ := Option.map_eq_some_iff.mp hstep
      refine ⟨h.subs, fun m' => ?_, h.redo, h.targets, h.listed,
        fun l s hs => (h.sending l s hs).congr rfl rfl, h.posSent, h.neverMixes⟩
      dsimp only
      rw [Function.update_apply]
      split
      · next hm => exact (h.cache m).handle10051006 hp type now
      · exact h.cache m'
    · contradiction
  | livesourceSendSubscribers l packet backlogEvbuffer =>
    rw [VirtualClients.step] at hstep
    split at hstep
    · next hnone =>
      obtain rfl := Option.some.inj hstep
      exact h.sendBegin (Option.isNone_iff_eq_none.mp hnone) packet backlogEvbuffer
    · contradiction
  | send l backlogLen memory =>
    obtain ⟨s, hs, hthat⟩ := Option.bind_eq_some_iff.mp hstep
    exact h.send hs (horderly s hs) hthat

/-- **Two bases are never mixed** in what a client is sent, in every state of a run in which no
packet passes the tests for a client while a switch of it is under way. -/
theorem orderly_neverMixes (h : Transition.Reachable (· = new W S L M) (Orderly filter)
    (step mountpoint filter junk) this) (st : S) : NeverMixes (this.output st) := by
  have hinv : this.Invariant mountpoint := by
    refine h.invariant ?_ fun this a that hthis horderly hstep => hthis.step horderly hstep
    rintro _ rfl
    exact invariant_new
  exact hinv.neverMixes st

/-! ### Two runs -/

section Decidable

variable [Fintype W] [Fintype L]

omit [DecidableEq W] [DecidableEq M] in
instance decidableUnderWay (this : Subscriptions W S L M) (st : S) : Decidable (this.UnderWay st) :=
  inferInstanceAs (Decidable (∃ _, _ ∨ _))

omit [DecidableEq W] [DecidableEq M] [Fintype W] in
instance decidablePassing (this : VirtualClients W S L M) (st : S) : Decidable (this.Passing st) :=
  inferInstanceAs (Decidable (∃ l, ∃ s ∈ this.sending l, ∃ x ∈ s.passed, x.1.ntripState = st))

omit [DecidableEq W] [DecidableEq S] [DecidableEq L] [DecidableEq M] [Fintype W] [Fintype L] in
instance decidableDelivers (filter : S → Option Filter) (s : Sending S L)
    (np : SubscriberRecord S L) (memory : Bool) : Decidable (Delivers filter s np memory) :=
  inferInstanceAs (Decidable (_ → _ ∧ ∀ f ∈ filter np.ntripState, _))

omit [DecidableEq W] [DecidableEq S] [DecidableEq L] [DecidableEq M] [Fintype W] [Fintype L] in
instance decidablePasses (this : VirtualClients W S L M) (s : Sending S L)
    (np : SubscriberRecord S L) (backlogLen : ℕ) : Decidable (this.Passes s np backlogLen) :=
  inferInstanceAs (Decidable (_ ∧ _ ∧ (_ → _)))

omit [DecidableEq W] [DecidableEq M] in
instance decidableKeepsApart (filter : S → Option Filter) (this : VirtualClients W S L M)
    (s : Sending S L) (backlogLen : ℕ) (memory : Bool) :
    Decidable (KeepsApart filter this s backlogLen memory) :=
  inferInstanceAs (Decidable ((_ → ∀ np ∈ s.rest.head?, this.Passes s np backlogLen → ¬ _) ∧
    ∀ x ∈ s.passed, Delivers filter s x.1 memory))

omit [DecidableEq W] [DecidableEq M] [Fintype W] [Fintype L] in
instance decidableHasMemory (this : VirtualClients W S L M) : DecidablePred this.HasMemory
  | .take _ i memory =>
    inferInstanceAs (Decidable (memory = true ∨ ∀ job ∈ this.subs.jobs[i]?, job.target = none))
  | .livesourceConnected _ => inferInstanceAs (Decidable True)
  | .livesourceFind _ _ _ _ => inferInstanceAs (Decidable True)
  | .ntripUnregisterLivesource _ => inferInstanceAs (Decidable True)
  | .livesourceDelSubscriber _ _ => inferInstanceAs (Decidable True)
  | .work _ _ => inferInstanceAs (Decidable True)
  | .livesourceSendSubscribers _ _ _ => inferInstanceAs (Decidable True)
  | .ntripDecrefEnd _ => inferInstanceAs (Decidable True)

instance decidableOrderly (filter : S → Option Filter) (this : VirtualClients W S L M) :
    DecidablePred (Orderly filter this)
  | .subscribe a =>
    @instDecidableAnd _ _ (this.subs.decidableSerial a) (this.decidableHasMemory a)
  | .redoVirtualPos _ st _ _ _ _ =>
    inferInstanceAs (Decidable (¬ this.subs.UnderWay st ∧ ¬ this.Passing st))
  | .redoNext _ memory => inferInstanceAs (Decidable (memory = true))
  | .send l backlogLen memory =>
    inferInstanceAs (Decidable (∀ s ∈ this.sending l, KeepsApart filter this s backlogLen memory))
  | .setVirtualMountpoint _ => inferInstanceAs (Decidable True)
  | .rtcmHandlerPos _ _ _ => inferInstanceAs (Decidable True)
  | .livesourceSendSubscribers _ _ _ => inferInstanceAs (Decidable True)

end Decidable

/-- A message of type 1005. -/
def firstPosition : Packet :=
  ⟨.rtcmChecked, [0xd3, 0x00, 0x13, 0x3e, 0xd7, 0xd3, 0x03, 0x02, 0x98, 0x0e, 0xde, 0xef, 0x34,
    0xb4, 0xbd, 0x62, 0xac, 0x09, 0x41, 0x98, 0x6f, 0x33, 0x96, 0xf0, 0xbf]⟩

/-- A message of type 1005 of another base. -/
def secondPosition : Packet :=
  ⟨.rtcmChecked, [0xd3, 0x00, 0x13, 0x3e, 0xd0, 0x01, 0x03, 0x09, 0xc7, 0x65, 0x24, 0x00, 0x00,
    0x65, 0x53, 0xf1, 0x00, 0x0b, 0x1b, 0x24, 0x3d, 0x00, 0xde, 0xd1, 0x64]⟩

/-- A switch is decided, the position from the cache is sent, and the job is queued. -/
def decideSwitch (l currentLivesourceLive : Bool) : List (VirtualStep Unit Unit Bool Bool) :=
  [.redoVirtualPos () () l false currentLivesourceLive false, .redoNext () true,
    .redoNext () true, .redoNext () true]

/-- A base sends a message with observations. -/
def sendObservations (l : Bool) : List (VirtualStep Unit Unit Bool Bool) :=
  [.livesourceSendSubscribers l oneCellMsm7 1000, .send l 0 true, .send l 0 true, .send l 0 true]

/-- Two bases have sent their positions, a client is subscribed to the first one, and a switch to
the second one is decided. -/
def secondIsCloser : List (VirtualStep Unit Unit Bool Bool) :=
  ([.subscribe (.livesourceConnected false), .subscribe (.livesourceConnected true),
    .rtcmHandlerPos false firstPosition 0, .rtcmHandlerPos true secondPosition 0] :
      List (VirtualStep Unit Unit Bool Bool)) ++
  decideSwitch false false ++
  ([.subscribe (.take () 0 true), .subscribe (.work () true), .subscribe (.work () true),
    .subscribe (.work () true), .setVirtualMountpoint ()] :
      List (VirtualStep Unit Unit Bool Bool)) ++
  sendObservations false ++ decideSwitch true true

/-- The job is run before a base sends anything. -/
def sentAfterwards : List (VirtualStep Unit Unit Bool Bool) :=
  secondIsCloser ++
  ([.subscribe (.take () 0 true), .subscribe (.work () true), .subscribe (.work () true),
    .subscribe (.work () true), .subscribe (.work () true), .setVirtualMountpoint ()] :
      List (VirtualStep Unit Unit Bool Bool)) ++
  sendObservations true

theorem orderly_neverMixes_sentAfterwards :
    ∃ this : VirtualClients Unit Unit Bool Bool,
      Transition.Reachable (· = new Unit Unit Bool Bool) (Orderly fun _ => none)
        (step id (fun _ => none) fun _ => 0) this ∧
      this.output () = [.switched none false, .packet false firstPosition,
        .packet false oneCellMsm7, .switched (some false) true, .packet true secondPosition,
        .packet true oneCellMsm7] ∧
      NeverMixes (this.output ()) := by
  have hobserve : (sentAfterwards.foldlM (fun this a =>
      if Orderly (fun _ => none) this a then step id (fun _ => none) (fun _ => 0) this a else none)
      (new Unit Unit Bool Bool)).map (fun this => this.output ()) =
      some [.switched none false, .packet false firstPosition, .packet false oneCellMsm7,
        .switched (some false) true, .packet true secondPosition, .packet true oneCellMsm7] := by
    decide
  obtain ⟨this, hrun, hoff⟩ := Option.map_eq_some_iff.mp hobserve
  have hreach : Transition.Reachable (· = new Unit Unit Bool Bool) (Orderly fun _ => none)
      (step id (fun _ => none) fun _ => 0) this := Transition.reachable_of_foldlM (.refl rfl) hrun
  exact ⟨this, hreach, hoff, orderly_neverMixes hreach ()⟩

/-- The first base sends before the job is run. -/
def sentTooEarly : List (VirtualStep Unit Unit Bool Bool) :=
  secondIsCloser ++ sendObservations false

/-- The client is sent observations of the first base after the position of the second one. -/
theorem not_neverMixes_sentTooEarly :
    ∃ this : VirtualClients Unit Unit Bool Bool,
      Transition.Reachable (· = new Unit Unit Bool Bool) (fun _ _ => True)
        (step id (fun _ => none) fun _ => 0) this ∧
      this.output () = [.switched none false, .packet false firstPosition,
        .packet false oneCellMsm7, .switched (some false) true, .packet true secondPosition,
        .packet false oneCellMsm7] ∧
      ¬ NeverMixes (this.output ()) := by
  have hobserve : (sentTooEarly.foldlM (fun this a =>
      if True then step id (fun _ => none) (fun _ => 0) this a else none)
      (new Unit Unit Bool Bool)).map (fun this => this.output ()) =
      some [.switched none false, .packet false firstPosition, .packet false oneCellMsm7,
        .switched (some false) true, .packet true secondPosition, .packet false oneCellMsm7] := by
    decide
  obtain ⟨this, hrun, hoff⟩ := Option.map_eq_some_iff.mp hobserve
  refine ⟨this, Transition.reachable_of_foldlM (.refl rfl) hrun, hoff, fun h => ?_⟩
  rw [hoff] at h
  have hposition : HasPosition true [(true, secondPosition)] :=
    ⟨secondPosition, List.mem_singleton_self _, by decide⟩
  have hbase := (h [.switched none false, .packet false firstPosition, .packet false oneCellMsm7,
    .switched (some false) true, .packet true secondPosition] false oneCellMsm7 [] rfl true _
    rfl).1 hposition
  contradiction

end VirtualClients

end ChilopodCaster
