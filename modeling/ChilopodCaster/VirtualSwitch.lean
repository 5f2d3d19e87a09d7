import ChilopodCaster.Rtcm.Filter
import ChilopodCaster.SubscriptionTargets

/-!
# Clients of a virtual mountpoint

A client of a virtual mountpoint is served by the base that is closest to it. When it has moved,
`ntripsrv_redo_virtual_pos` decides to switch it to another base: it sends the position of that base
at once if the cache has it, else it makes the client wait for one, and it queues a job,
`redistribute_switch_source`, that changes the subscription. Until the job has been run, the client
is in the list of its old base, and `livesource_send_subscribers` sends it the packets of that base.

The threads are those of `Subscriptions`, whose steps are steps here. What is added is what is sent:
`livesource_send_subscribers` holds the lock of the livesource for its whole loop, but not the lock
of the client, so that its accesses to `rtcm_client_state` and its `packet_send` are steps of their
own. `ntripsrv_redo_virtual_pos` holds the lock of the client. All sessions here are clients of
virtual mountpoints.

## Main definitions

* `ClientOutput` — what a client is sent, and the switches decided in between
* `Sending` — a thread in `livesource_send_subscribers`
* `VirtualClients`, `VirtualClients.step` — the system
-/

namespace ChilopodCaster

/-- `enum ntrip_rtcm_state`. -/
inductive RtcmClientState
  | posWait
  | posOk
  deriving DecidableEq, Repr

/-- What a client is sent, and where in it a switch was decided. -/
inductive ClientOutput (M : Type)
  /-- a switch is decided, from the base in the field `virtual_mountpoint` -/
  | switched (virtualMountpoint : Option M) (m : M)
  /-- a packet of a base is sent -/
  | packet (base : M) (p : Packet)
  deriving DecidableEq, Repr

/-- Where a worker is in `ntripsrv_redo_virtual_pos`. -/
inductive RedoPc
  | idle
  /-- a switch is decided, and a livesource was found -/
  | decided
  /-- before it sends the position from the cache -/
  | position (packetPos : Packet)
  /-- before it queues the job -/
  | queue
  deriving DecidableEq, Repr

/-- A thread in the loop of `livesource_send_subscribers`. -/
structure Sending (S L : Type) where
  packet : Packet
  isPos : Bool
  backlogEvbuffer : ℕ
  /-- the subscribers it has not come to -/
  rest : List (SubscriberRecord S L)
  /-- the subscriber that has passed the tests, and whether its `rtcm_client_state` is still to be
  set -/
  passed : Option (SubscriberRecord S L × Bool)
  nbacklogged : ℕ
  pconv : Option Packet

/-- The packet for a subscriber that has passed the tests, if there is one, and the packet `pconv`,
which is kept for the next subscribers. A subscriber may have a filter. -/
def Sending.convert {S L : Type} (junk : ℕ → Byte) (this : Sending S L) :
    Option Rtcm.Filter → Option (Option Packet × Option Packet)
  | none => some (some this.packet, this.pconv)
  | some filter => do
    if ← Rtcm.rtcmFilterPass filter this.packet then
      return (some this.packet, this.pconv)
    else
      let pconv ←
        if this.pconv.isSome then some this.pconv
        else Rtcm.rtcmFilterConvert junk filter this.packet
      return (pconv, pconv)

/-- Clients, livesources and workers. -/
structure VirtualClients (W S L M : Type) where
  subs : Subscriptions W S L M
  /-- the field `rtcm_client_state` of a session -/
  rtcmClientState : S → RtcmClientState
  /-- the field `virtual_mountpoint` of a session -/
  virtualMountpoint : S → Option M
  /-- the positions in the cache, by mountpoint -/
  rtcmCache : M → Rtcm.Info
  /-- the lock of the session is held by `ntripsrv_redo_virtual_pos` -/
  locked : S → Bool
  redo : W → RedoPc
  /-- the worker is in `redistribute_switch_source`, after `livesource_add_subscriber` -/
  recording : W → Option (S × M)
  /-- the thread in `livesource_send_subscribers` that has the lock of the livesource -/
  sending : L → Option (Sending S L)
  /-- what a client was sent -/
  output : S → List (ClientOutput M)

/-! ### Locks -/

namespace SubscribePc

variable {S L : Type}

/-- The session whose lock a worker takes in its next step. -/
def locksSession : SubscribePc S L → Option S
  | .adding st _ _ => some st
  | .removing st _ _ => some st
  | _ => none

/-- The session and the livesource of a `livesource_add_subscriber` that returns. -/
def returns : SubscribePc S L → SubscribePc S L → Option (S × L)
  | .adding st livesource _, .idle => some (st, livesource)
  | .inserting sub, .idle => some (sub.ntripState, sub.livesource)
  | _, _ => none

end SubscribePc

namespace VirtualClients

variable {W S L M : Type} [DecidableEq W] [DecidableEq S] [DecidableEq L] [DecidableEq M]

/-- No client is subscribed, and the cache is empty. -/
def new (W S L M : Type) : VirtualClients W S L M where
  subs := .new W S L M
  rtcmClientState _ := .posWait
  virtualMountpoint _ := none
  rtcmCache _ := .new
  locked _ := false
  redo _ := .idle
  recording _ := none
  sending _ := none
  output _ := []

/-- A step of `Subscriptions` that does not wait for a lock, and that is not given by other steps
here. -/
def enabled (this : VirtualClients W S L M) : SubscribeStep W S L → Bool
  | .livesourceFind _ _ _ _ => false
  | .livesourceSendSubscribers _ _ _ => false
  | .take w _ _ => (this.recording w).isNone
  | .livesourceDelSubscriber w _ => (this.recording w).isNone
  | .work w _ =>
    let pc := this.subs.pc w
    !pc.isFound && pc.locks.all (fun l => (this.sending l).isNone) &&
      pc.locksSession.all fun st => !this.locked st
  | _ => true

/-- A client is sent a packet, unless there is no memory. -/
def packetSend (this : VirtualClients W S L M) (base : M) (p : Packet) (st : S) (memory : Bool) :
    VirtualClients W S L M :=
  if memory then
    { this with output := Function.update this.output st (this.output st ++ [.packet base p]) }
  else this

/-- The thread that has the lock of a livesource goes on. -/
def goOn (this : VirtualClients W S L M) (livesource : L) (s : Sending S L) :
    VirtualClients W S L M :=
  { this with sending := Function.update this.sending livesource (some s) }

/-! ### Steps -/

/-- The tests of `livesource_send_subscribers` for a subscriber. -/
def test (this : VirtualClients W S L M) (livesource : L) (s : Sending S L)
    (np : SubscriberRecord S L) (backlogLen : ℕ) : VirtualClients W S L M :=
  if this.subs.ended np.ntripState then this.goOn livesource s
  else
    let this := { this with
      subs := { this.subs with
        backlogLen := Function.update this.subs.backlogLen np.address backlogLen } }
    if s.backlogEvbuffer < backlogLen then
      this.goOn livesource { s with nbacklogged := s.nbacklogged + 1 }
    else if this.rtcmClientState np.ntripState = .posWait then
      if !s.isPos then this.goOn livesource s
      else this.goOn livesource { s with passed := some (np, true) }
    else this.goOn livesource { s with passed := some (np, false) }

/-- The next step of `livesource_send_subscribers`. -/
def send (mountpoint : L → M) (filter : S → Option Rtcm.Filter) (junk : ℕ → Byte)
    (this : VirtualClients W S L M) (livesource : L) (s : Sending S L) (backlogLen : ℕ)
    (memory : Bool) : Option (VirtualClients W S L M) :=
  match s.passed, s.rest with
  | some (np, true), _ =>
    some { this.goOn livesource { s with passed := some (np, false) } with
      rtcmClientState := Function.update this.rtcmClientState np.ntripState .posOk }
  | some (np, false), _ => do
    let (p, pconv) ← s.convert junk (filter np.ntripState)
    let this := this.goOn livesource { s with passed := none, pconv := pconv }
    match p with
    | none => return this
    | some p => return this.packetSend (mountpoint livesource) p np.ntripState memory
  | none, np :: rest => some (this.test livesource { s with rest := rest } np backlogLen)
  | none, [] =>
    some { this with
      subs := if s.nbacklogged = 0 then this.subs
        else this.subs.killSubscribersUnlocked livesource true s.backlogEvbuffer
      sending := Function.update this.sending livesource none }

/-- The next step of `ntripsrv_redo_virtual_pos`, once a switch is decided. -/
def redoNext (mountpoint : L → M) (this : VirtualClients W S L M) (w : W) (memory : Bool) :
    Option (VirtualClients W S L M) :=
  match this.subs.pc w, this.redo w with
  | .found (.redistributeSwitchSource st livesource), .decided =>
    match (this.rtcmCache (mountpoint livesource)).posPacket with
    | some packetPos =>
      some { this with
        rtcmClientState := Function.update this.rtcmClientState st .posOk
        redo := Function.update this.redo w (.position packetPos) }
    | none =>
      some { this with
        rtcmClientState := Function.update this.rtcmClientState st .posWait
        redo := Function.update this.redo w .queue }
  | .found (.redistributeSwitchSource st livesource), .position packetPos =>
    some { this.packetSend (mountpoint livesource) packetPos st memory with
      redo := Function.update this.redo w .queue }
  | .found (.redistributeSwitchSource st _), .queue =>
    (this.subs.step (fun _ => true) mountpoint (.work w memory)).map fun subs =>
      { this with
        subs := subs
        locked := Function.update this.locked st false
        redo := Function.update this.redo w .idle }
  | _, _ => none

end VirtualClients

/-- The steps of the system. -/
inductive VirtualStep (W S L M : Type)
  /-- a step of `Subscriptions` -/
  | subscribe (a : SubscribeStep W S L)
  /-- `ntripsrv_redo_virtual_pos` decides a switch to a livesource. Its mountpoint is the closest
  one; `closer` tells that the current one is closer, less the hysteresis. -/
  | redoVirtualPos (w : W) (st : S) (livesource : L) (create currentLivesourceLive closer : Bool)
  /-- the next step of `ntripsrv_redo_virtual_pos` -/
  | redoNext (w : W) (memory : Bool)
  /-- `redistribute_switch_source` sets `virtual_mountpoint` -/
  | setVirtualMountpoint (w : W)
  /-- `rtcm_handler_pos` for a packet of a base -/
  | rtcmHandlerPos (m : M) (p : Packet) (now : ℕ)
  /-- `livesource_send_subscribers` takes the lock of a livesource -/
  | livesourceSendSubscribers (livesource : L) (packet : Packet) (backlogEvbuffer : ℕ)
  /-- the next step of `livesource_send_subscribers` -/
  | send (livesource : L) (backlogLen : ℕ) (memory : Bool)

namespace VirtualClients

variable {W S L M : Type} [DecidableEq W] [DecidableEq S] [DecidableEq L] [DecidableEq M]

/-- `ntripsrv_redo_virtual_pos` decides to switch a client. -/
def Switches (this : VirtualClients W S L M) (st : S) (m : M)
    (currentLivesourceLive closer : Bool) : Prop :=
  let live := (this.virtualMountpoint st).isSome && currentLivesourceLive
  (live = false ∨ this.virtualMountpoint st ≠ some m) ∧ ¬ (live = true ∧ closer = true)

instance (this : VirtualClients W S L M) (st : S) (m : M) (currentLivesourceLive closer : Bool) :
    Decidable (this.Switches st m currentLivesourceLive closer) :=
  inferInstanceAs (Decidable (_ ∧ _))

/-- One step, if it can be made. The packets of the cache are those `rtcm_handler` has queued a job
for, position packets by `Rtcm.rtcmHandler_posJobs`. -/
def step (mountpoint : L → M) (filter : S → Option Rtcm.Filter) (junk : ℕ → Byte)
    (this : VirtualClients W S L M) : VirtualStep W S L M → Option (VirtualClients W S L M)
  | .subscribe a =>
    if this.enabled a then
      (this.subs.step (fun _ => true) mountpoint a).map fun subs =>
        { this with
          subs := subs
          recording := fun w =>
            ((this.subs.pc w).returns (subs.pc w)).elim (this.recording w)
              fun (st, l) => some (st, mountpoint l) }
    else none
  | .redoVirtualPos w st livesource create currentLivesourceLive closer =>
    if this.locked st = false ∧ this.recording w = none ∧
        this.Switches st (mountpoint livesource) currentLivesourceLive closer then
      (this.subs.step (fun _ => true) mountpoint (.livesourceFind w st livesource create)).map
        fun subs => { this with
          subs := subs
          locked := Function.update this.locked st true
          redo := Function.update this.redo w .decided
          output := Function.update this.output st
            (this.output st ++ [.switched (this.virtualMountpoint st) (mountpoint livesource)]) }
    else none
  | .redoNext w memory => this.redoNext mountpoint w memory
  | .setVirtualMountpoint w =>
    (this.recording w).map fun (st, m) =>
      { this with
        virtualMountpoint := Function.update this.virtualMountpoint st (some m)
        recording := Function.update this.recording w none }
  | .rtcmHandlerPos m p now =>
    if Rtcm.rtcmPacketIsPos p then
      (Rtcm.rtcmGetType p).map fun type =>
        { this with
          rtcmCache := Function.update this.rtcmCache m
            ((this.rtcmCache m).handle10051006 type p now) }
    else none
  | .livesourceSendSubscribers livesource packet backlogEvbuffer =>
    if (this.sending livesource).isNone then
      let subscribers := this.subs.subscribers livesource
      let s : Sending S L :=
        ⟨packet, Rtcm.rtcmPacketIsPos packet, backlogEvbuffer, subscribers, none, 0, none⟩
      -- `assert(n == this->nsubs)`: the loop counts every subscriber, and the lock is held
      some { this.goOn livesource s with
        subs := { this.subs with
          failed := this.subs.failed ||
            decide ((subscribers.length : ℤ) ≠ this.subs.nsubs livesource) } }
    else none
  | .send livesource backlogLen memory =>
    (this.sending livesource).bind fun s =>
      this.send mountpoint filter junk livesource s backlogLen memory

end VirtualClients

end ChilopodCaster
