import ChilopodCaster.SubscriptionSerial
import ChilopodCaster.VirtualSwitch

/-!
# What a client is sent when it is switched to another base

A client that is switched to a base should be sent the position of that base before anything else
of it, and nothing of another base once it has it. That is so as long as nothing is sent to the
client while a switch is under way: from the lookup of the new base until the job that changes the
subscription has been run. Otherwise packets of the old base go out after the position of the new
one, or a position of the old base is taken for the position the client waits for.

## Main definitions

* `ClientOutput.NeverMixes` — what a client may be sent
* `VirtualClients.Invariant` — the invariant of runs that keep switches and packets apart

## Main results

* `VirtualClients.Invariant.advance`, `VirtualClients.Invariant.goOn`,
  `VirtualClients.Invariant.packetSend` — what keeps the invariant
-/

namespace ChilopodCaster

open Rtcm

variable {W S L M : Type}

/-! ### What a client is sent -/

namespace ClientOutput

/-- The base a client was last switched to, and the packets it was sent since that was decided,
each with the base it is of. -/
def since (out : List (ClientOutput M)) : Option (M × List (M × Packet)) :=
  out.foldl (fun last e =>
    match e with
    | .switched _ m => some (m, [])
    | .packet base p => last.map fun (m, sent) => (m, sent ++ [(base, p)])) none

/-- A position packet of the base is among those sent. -/
def HasPosition (m : M) (sent : List (M × Packet)) : Prop :=
  ∃ p, (m, p) ∈ sent ∧ rtcmPacketIsPos p = true

/-- Two bases are never mixed: once a position packet of the base a client is switched to has been
sent, no packet of another one is sent until the next switch; and a packet of that base that is not
a position packet is sent only after a position packet of it, sent since the switch was decided. -/
def NeverMixes (out : List (ClientOutput M)) : Prop :=
  ∀ before base p after, out = before ++ ClientOutput.packet base p :: after →
    ∀ m sent, since before = some (m, sent) →
      (HasPosition m sent → base = m) ∧
      (base = m → rtcmPacketIsPos p = false → HasPosition m sent)

/-- The base a client was last switched to. -/
def current (out : List (ClientOutput M)) : Option M := (since out).map Prod.fst

/-- A position packet of that base was sent since. -/
def Positioned (out : List (ClientOutput M)) : Prop :=
  ∃ m sent, since out = some (m, sent) ∧ HasPosition m sent

variable {out : List (ClientOutput M)} {base m : M} {p : Packet}

@[simp] theorem since_append_switched (a : Option M) :
    since (out ++ [.switched a m]) = some (m, []) := by
  rw [since, List.foldl_append]
  rfl

@[simp] theorem since_append_packet :
    since (out ++ [.packet base p]) =
      (since out).map fun (m, sent) => (m, sent ++ [(base, p)]) := by
  rw [since, List.foldl_append]
  rfl

@[simp] theorem current_append_switched (a : Option M) :
    current (out ++ [.switched a m]) = some m := by
  rw [current, since_append_switched]
  rfl

@[simp] theorem current_append_packet : current (out ++ [.packet base p]) = current out := by
  rw [current, since_append_packet, Option.map_map]
  rfl

theorem exists_since (h : current out = some m) : ∃ sent, since out = some (m, sent) := by
  obtain ⟨⟨_, sent⟩, hsince, rfl⟩ := Option.map_eq_some_iff.mp h
  exact ⟨sent, hsince⟩

theorem Positioned.append (h : Positioned out) : Positioned (out ++ [.packet base p]) := by
  obtain ⟨m, sent, hsince, q, hq, hpos⟩ := h
  refine ⟨m, sent ++ [(base, p)], ?_, q, List.mem_append_left _ hq, hpos⟩
  rw [since_append_packet, hsince]
  rfl

/-- The position of the base a client was switched to is sent. -/
theorem positioned_append (h : current out = some base) (hp : rtcmPacketIsPos p = true) :
    Positioned (out ++ [.packet base p]) := by
  obtain ⟨sent, hsince⟩ := exists_since h
  refine ⟨base, sent ++ [(base, p)], ?_, p, ?_, hp⟩
  · rw [since_append_packet, hsince]
    rfl
  · exact List.mem_append_right _ (List.mem_singleton_self _)

/-- One more event: what is to be shown is about the event alone. -/
theorem NeverMixes.append {e : ClientOutput M} (h : NeverMixes out)
    (he : ∀ base p, e = .packet base p → ∀ m sent, since out = some (m, sent) →
      (HasPosition m sent → base = m) ∧
      (base = m → rtcmPacketIsPos p = false → HasPosition m sent)) :
    NeverMixes (out ++ [e]) := by
  intro before base p after heq
  rcases List.eq_nil_or_concat after with rfl | ⟨after, e', rfl⟩
  · obtain ⟨rfl, hlast⟩ := List.append_inj' heq rfl
    exact he base p (List.singleton_inj.mp hlast)
  · rw [List.concat_eq_append, ← List.cons_append, ← List.append_assoc] at heq
    exact h before base p after (List.append_inj' heq rfl).1

theorem NeverMixes.append_switched (h : NeverMixes out) (a : Option M) (m : M) :
    NeverMixes (out ++ [.switched a m]) := by
  refine h.append ?_
  rintro _ _ ⟨⟩

/-- A packet of the base a client was switched to is sent: a position packet, or after one. -/
theorem NeverMixes.append_packet (h : NeverMixes out) (hbase : current out = some base)
    (hp : rtcmPacketIsPos p = true ∨ Positioned out) : NeverMixes (out ++ [.packet base p]) := by
  refine h.append fun base' p' heq m sent hsince => ?_
  obtain ⟨rfl, rfl⟩ := ClientOutput.packet.inj heq
  rw [current, hsince] at hbase
  obtain rfl := Option.some.inj hbase
  refine ⟨fun _ => rfl, fun _ hnot => ?_⟩
  rcases hp with hp | ⟨m', sent', hsince', hpos⟩
  · rw [hp] at hnot
    contradiction
  · obtain ⟨rfl, rfl⟩ := Prod.mk.inj (Option.some.inj (hsince'.symm.trans hsince))
    exact hpos

end ClientOutput

open ClientOutput

/-- The worker has not sent the position from the cache. -/
def RedoPc.positions : RedoPc → Bool
  | .decided => true
  | .position _ => true
  | _ => false

/-- The thread is about to send a position packet to the session. -/
def Sending.SendsPosition (this : Sending S L) (st : S) : Prop :=
  this.isPos = true ∧ ∃ np, this.passed = some (np, false) ∧ np.ntripState = st

namespace VirtualClients

/-! ### The invariant -/

/-- `ntripsrv_redo_virtual_pos` is about to set the state of the session, or to send it a position
packet. -/
def Redoing (this : VirtualClients W S L M) (st : S) : Prop :=
  ∃ w l, this.subs.pc w = .found (.redistributeSwitchSource st l) ∧ (this.redo w).positions = true

/-- The session has been sent the position of its base, or is about to be. -/
def PosSent (this : VirtualClients W S L M) (st : S) : Prop :=
  Positioned (this.output st) ∨ this.Redoing st ∨ ∃ l, ∃ s ∈ this.sending l, s.SendsPosition st

/-- What holds of a subscriber that has passed the tests of `livesource_send_subscribers`. -/
structure Passed (this : VirtualClients W S L M) (l : L) (s : Sending S L)
    (x : SubscriberRecord S L × Bool) : Prop where
  listed : x.1 ∈ this.subs.subscribers l
  rests : ¬ this.subs.UnderWay x.1.ntripState
  positioned : s.isPos = true ∨ x.2 = false ∧ Positioned (this.output x.1.ntripState)

/-- What holds of a thread in `livesource_send_subscribers`. -/
structure SoundSending (this : VirtualClients W S L M) (l : L) (s : Sending S L) : Prop where
  rest : ∀ np ∈ s.rest, np ∈ this.subs.subscribers l
  isPos : s.isPos = rtcmPacketIsPos s.packet
  passed : ∀ x ∈ s.passed, this.Passed l s x

variable [DecidableEq S]

/-- The invariant of runs in which nothing is sent to a client while it is being switched. -/
structure Invariant (mountpoint : L → M) (this : VirtualClients W S L M) : Prop where
  subs : this.subs.Invariant fun _ => true
  cache : ∀ m, (this.rtcmCache m).OnlyPositions
  redo : ∀ w p, this.redo w = .position p → rtcmPacketIsPos p = true
  targets : ∀ st l, this.subs.Targets st l → current (this.output st) = some (mountpoint l)
  listed : ∀ l, ∀ np ∈ this.subs.subscribers l, this.subs.UnderWay np.ntripState ∨
    current (this.output np.ntripState) = some (mountpoint l)
  sending : ∀ l, ∀ s ∈ this.sending l, this.SoundSending l s
  posSent : ∀ st, this.rtcmClientState st = .posOk → this.PosSent st
  neverMixes : ∀ st, NeverMixes (this.output st)

variable {this that : VirtualClients W S L M} {mountpoint : L → M} {w : W} {st : S} {l : L}
  {s : Sending S L}

theorem invariant_new : (new W S L M).Invariant mountpoint where
  subs := Subscriptions.invariant_new
  cache _ := Info.onlyPositions_new
  redo := by rintro w p ⟨⟩
  targets := by
    rintro st l (⟨w, hw⟩ | hjob)
    · contradiction
    · contradiction
  listed l np hnp := absurd hnp List.not_mem_nil
  sending := by rintro l s ⟨⟩
  posSent := by rintro st ⟨⟩
  neverMixes st before base p after h :=
    absurd h.symm (List.append_ne_nil_of_right_ne_nil _ (List.cons_ne_nil _ _))

/-- A subscriber that has passed the tests is sent packets of the base it was switched to. -/
theorem Passed.current {x : SubscriberRecord S L × Bool} (hx : this.Passed l s x)
    (h : this.Invariant mountpoint) : current (this.output x.1.ntripState) = some (mountpoint l) :=
  (h.listed l x.1 hx.listed).resolve_left hx.rests

/-- Records of one session are in one list only. -/
theorem Invariant.unique (h : this.Invariant mountpoint) {l' : L} {np np' : SubscriberRecord S L}
    (hnp : np ∈ this.subs.subscribers l) (hnp' : np' ∈ this.subs.subscribers l')
    (heq : np'.ntripState = np.ntripState) : l' = l := by
  obtain ⟨hl, hsub⟩ := h.subs.sound.listed l np hnp
  obtain ⟨hl', hsub'⟩ := h.subs.sound.listed l' np' hnp'
  rw [heq, hsub] at hsub'
  rw [← hl, ← hl', Option.some.inj hsub']

omit [DecidableEq S] in
theorem Redoing.underWay (h : this.Redoing st) : this.subs.UnderWay st := by
  obtain ⟨w, l, hpc, -⟩ := h
  exact ⟨l, .inl ⟨w, by rw [hpc]; rfl⟩⟩

omit [DecidableEq S] in
/-- One worker moves. -/
theorem Redoing.update (h : this.Redoing st)
    (hpc : ∀ w', w' ≠ w → that.subs.pc w' = this.subs.pc w')
    (hredo : ∀ w', w' ≠ w → that.redo w' = this.redo w') :
    (∃ l, this.subs.pc w = .found (.redistributeSwitchSource st l) ∧
      (this.redo w).positions = true) ∨ that.Redoing st := by
  obtain ⟨w', l, hw', hpositions⟩ := h
  by_cases hw : w' = w
  · subst hw
    exact .inl ⟨l, hw', hpositions⟩
  · refine .inr ⟨w', l, ?_, ?_⟩
    · rw [hpc w' hw]
      exact hw'
    · rw [hredo w' hw]
      exact hpositions

/-! ### Frame lemmas -/

omit [DecidableEq S] in
/-- Subscribers stay in the list of a livesource; those that have passed the tests do not begin to
be on their way, and keep their position. -/
theorem SoundSending.mono (h : this.SoundSending l s)
    (hlisted : ∀ np ∈ this.subs.subscribers l, np ∈ that.subs.subscribers l)
    (hpassed : ∀ x ∈ s.passed,
      (that.subs.UnderWay x.1.ntripState → this.subs.UnderWay x.1.ntripState) ∧
      (Positioned (this.output x.1.ntripState) → Positioned (that.output x.1.ntripState))) :
    that.SoundSending l s := by
  refine ⟨fun np hnp => hlisted np (h.rest np hnp), h.isPos, fun x hx => ?_⟩
  obtain ⟨hin, hrests, hpos⟩ := h.passed x hx
  obtain ⟨hunder, hpositioned⟩ := hpassed x hx
  exact ⟨hlisted x.1 hin, fun hx' => hrests (hunder hx'),
    hpos.imp_right (And.imp_right hpositioned)⟩

omit [DecidableEq S] in
theorem SoundSending.congr (h : this.SoundSending l s) (hsubs : that.subs = this.subs)
    (hoff : that.output = this.output) : that.SoundSending l s := by
  refine h.mono ?_ fun x hx => ⟨?_, ?_⟩
  · rw [hsubs]
    exact fun _ => id
  · rw [hsubs]
    exact id
  · rw [hoff]
    exact id

/-- A step of workers and lists, in which nothing is sent. -/
theorem Invariant.advance {locked : Option L} (h : this.Invariant mountpoint)
    (hsubs : that.subs.Invariant fun _ => true) (hadvances : this.subs.Advances that.subs locked)
    (hlocked : ∀ l, locked = some l → that.sending l = none)
    (hcache : that.rtcmCache = this.rtcmCache)
    (hredo : ∀ w p, that.redo w = .position p → rtcmPacketIsPos p = true)
    (hsending : ∀ l s, that.sending l = some s → this.sending l = some s)
    (hoff : that.output = this.output)
    (hposSent : ∀ st, that.rtcmClientState st = .posOk → that.PosSent st) :
    that.Invariant mountpoint := by
  refine ⟨hsubs, ?_, hredo, ?_, ?_, ?_, hposSent, ?_⟩
  · rw [hcache]
    exact h.cache
  · intro st l hl
    rw [hoff]
    exact h.targets st l (hadvances.targets st l hl)
  · intro l np hnp
    rw [hoff]
    rcases hadvances.listed l np hnp with htarget | ⟨hold, hunder⟩
    · exact .inr (h.targets _ l htarget)
    · exact (h.listed l np hold).imp_left hunder
  · intro l s hs
    refine (h.sending l s (hsending l s hs)).mono ?_ fun x hx => ⟨?_, ?_⟩
    · refine hadvances.kept l fun heq => ?_
      rw [hlocked l heq] at hs
      contradiction
    · exact fun ⟨l', hl'⟩ => ⟨l', hadvances.targets _ l' hl'⟩
    · rw [hoff]
      exact id
  · rw [hoff]
    exact h.neverMixes

omit [DecidableEq S] in
/-- The lock of no livesource is taken. -/
theorem not_locked (l : L) (h : (none : Option L) = some l) : this.sending l = none :=
  absurd h.symm (Option.some_ne_none l)

/-- A step in which nothing is sent and lists are left alone. -/
theorem Invariant.keep (h : this.Invariant mountpoint) (hsubs : that.subs = this.subs)
    (hcache : that.rtcmCache = this.rtcmCache)
    (hredo : ∀ w p, that.redo w = .position p → rtcmPacketIsPos p = true)
    (hsending : that.sending = this.sending) (hoff : that.output = this.output)
    (hposSent : ∀ st, that.rtcmClientState st = .posOk → that.PosSent st) :
    that.Invariant mountpoint := by
  have hsame : this.subs.Advances that.subs none := .of_eq (by rw [hsubs]) (by rw [hsubs])
    (by rw [hsubs])
  refine h.advance (hsubs ▸ h.subs) hsame not_locked hcache hredo ?_ hoff hposSent
  rw [hsending]
  exact fun _ _ => id

/-- The state of a session is set. -/
theorem Invariant.setState (h : this.Invariant mountpoint) {state : RtcmClientState}
    (hst : state = .posOk → this.PosSent st) :
    Invariant mountpoint { this with
      rtcmClientState := Function.update this.rtcmClientState st state } := by
  refine h.keep rfl rfl h.redo rfl rfl fun st' hst' => ?_
  dsimp only at hst'
  rw [Function.update_apply] at hst'
  split at hst'
  · next heq => exact heq ▸ hst hst'
  · exact h.posSent st' hst'

/-- A worker goes on in `ntripsrv_redo_virtual_pos`. -/
theorem Invariant.redoGoto [DecidableEq W] (h : this.Invariant mountpoint)
    (hpc : this.subs.pc w = .found (.redistributeSwitchSource st l)) {pc : RedoPc}
    (hposition : ∀ p, pc = .position p → rtcmPacketIsPos p = true)
    (hst : this.rtcmClientState st = .posOk → pc.positions = true ∨ Positioned (this.output st)) :
    Invariant mountpoint { this with redo := Function.update this.redo w pc } := by
  refine h.keep rfl rfl ?_ rfl rfl fun st' hst' => ?_
  · intro w' p hw'
    dsimp only at hw'
    rw [Function.update_apply] at hw'
    split at hw'
    · exact hposition p hw'
    · exact h.redo w' p hw'
  · rcases h.posSent st' hst' with hpos | hredoing | hsends
    · exact .inl hpos
    · have hmoved : (∃ l, this.subs.pc w = .found (.redistributeSwitchSource st' l) ∧
          (this.redo w).positions = true) ∨
          Redoing { this with redo := Function.update this.redo w pc } st' :=
        hredoing.update (fun _ _ => rfl) fun w' hw' => Function.update_of_ne hw' _ _
      rcases hmoved with ⟨l', hw', -⟩ | hredoing
      · have heq : st = st' := by
          rw [hpc] at hw'
          injection hw' with hjob
          injection hjob
        subst heq
        refine (hst hst').elim (fun hpositions => .inr (.inl ⟨w, l, hpc, ?_⟩)) .inl
        dsimp only
        rw [Function.update_self]
        exact hpositions
      · exact .inr (.inl hredoing)
    · exact .inr (.inr hsends)

/-- A thread in `livesource_send_subscribers` goes on. -/
theorem Invariant.goOn [DecidableEq L] (h : this.Invariant mountpoint) (hs : this.SoundSending l s)
    (hkeeps : ∀ s' ∈ this.sending l, ∀ st, s'.SendsPosition st →
      Positioned (this.output st) ∨ s.SendsPosition st) : (this.goOn l s).Invariant mountpoint := by
  refine ⟨h.subs, h.cache, h.redo, h.targets, h.listed, ?_, ?_, h.neverMixes⟩
  · intro l' s' hs'
    dsimp only [VirtualClients.goOn] at hs'
    rw [Function.update_apply] at hs'
    split at hs'
    · next hl =>
      subst hl
      obtain rfl := Option.some.inj hs'
      exact hs.congr rfl rfl
    · exact (h.sending l' s' hs').congr rfl rfl
  · intro st hst
    rcases h.posSent st hst with hpos | hredoing | ⟨l', s', hs', hsends⟩
    · exact .inl hpos
    · exact .inr (.inl hredoing)
    · by_cases hl : l' = l
      · subst hl
        refine (hkeeps s' hs' st hsends).imp_right fun hsends => .inr ⟨l', s, ?_, hsends⟩
        exact Function.update_self _ _ _
      · refine .inr (.inr ⟨l', s', ?_, hsends⟩)
        exact (Function.update_of_ne hl _ _).trans hs'

/-- A client is sent a packet of the base it was switched to: a position packet, or after one. -/
theorem Invariant.packetSend (h : this.Invariant mountpoint) {base : M} {p : Packet}
    (hbase : current (this.output st) = some base)
    (hp : rtcmPacketIsPos p = true ∨ Positioned (this.output st)) :
    (this.packetSend base p st true).Invariant mountpoint := by
  have hsame (st' : S) (hne : st' ≠ st) :
      (this.packetSend base p st true).output st' = this.output st' := Function.update_of_ne hne _ _
  have hsent : (this.packetSend base p st true).output st = this.output st ++ [.packet base p] :=
    Function.update_self _ _ _
  have hcurrent (st' : S) : current ((this.packetSend base p st true).output st') =
      current (this.output st') := by
    by_cases hst : st' = st
    · rw [hst, hsent, current_append_packet]
    · rw [hsame st' hst]
  have hpositioned (st' : S) (hpos : Positioned (this.output st')) :
      Positioned ((this.packetSend base p st true).output st') := by
    by_cases hst : st' = st
    · rw [hst] at hpos ⊢
      rw [hsent]
      exact hpos.append
    · rw [hsame st' hst]
      exact hpos
  refine ⟨h.subs, h.cache, h.redo, ?_, ?_, ?_, ?_, ?_⟩
  · intro st' l hl
    rw [hcurrent]
    exact h.targets st' l hl
  · intro l np hnp
    rw [hcurrent]
    exact h.listed l np hnp
  · intro l s hs
    exact (h.sending l s hs).mono (fun _ => id) fun x _ => ⟨id, hpositioned _⟩
  · intro st' hst'
    exact (h.posSent st' hst').imp_left (hpositioned st')
  · intro st'
    by_cases hst : st' = st
    · rw [hst, hsent]
      exact (h.neverMixes st).append_packet hbase hp
    · rw [hsame st' hst]
      exact h.neverMixes st'

end VirtualClients

end ChilopodCaster
