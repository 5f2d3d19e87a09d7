import ChilopodCaster.Lib.Transition
import ChilopodCaster.ServerRound

/-!
# Forwarded addresses

Behind a proxy, a header of each request gives the address of the client it comes from. The caster
believes it if the peer of the connection is a trusted proxy, and then attributes the connection to
that address: it is the address of the access rules, and the key of the quota table. But the address
also replaces the peer of the connection, in `st->peeraddr`, and this is the address that trust is
decided on for the next header. A connection is attributed to the first address the proxy forwards;
the next one is believed only if the first one is itself a trusted proxy.

## Main definitions

* `forwardedAddr` — the address that the headers of a request forward
* `Attributed` — the connection is counted once, under its address, and its address is the forwarded
  one
* `Proxied` — a connection, with the other sessions that the quota table counts

## Main results

* `Proxied.reachable_attributed` — connections are attributed to the forwarded address as long as
  `st->peeraddr` is trusted when a header with an address is read, and to their peer if it is never
  trusted
* `Proxied.second_forwarded_ignored` — a run in which the address of the second request is ignored
-/

namespace ChilopodCaster

namespace Ntripsrv

open ChunkDecode

variable {W G : Type} {c : Caster W G} {config : Config} {s s' : Server W G}
  {others : List CString}

/-- The address that the headers of a request forward: that of the last such header, if it is
valid. -/
def forwardedAddr (headers : List Header) : Option Sock :=
  (headers.filter (·.kind = .forwarded)).getLast?.bind fun h => ipConvert (lastForwarded h.value)

theorem forwardedAddr_append (headers : List Header) (h : Header) :
    forwardedAddr (headers ++ [h]) =
      if h.kind = .forwarded then ipConvert (lastForwarded h.value) else forwardedAddr headers := by
  rw [forwardedAddr, List.filter_append]
  split
  · next hkind => simp [hkind]
  · next hkind => simp [hkind, forwardedAddr]

/-- The sessions counted under an address: some of the others, and the one of the connection. -/
def charge (others : List CString) (remoteAddr : CString) (a : CString) : ℕ :=
  others.count a + if a = remoteAddr then 1 else 0

/-- The session is counted once, under its address. -/
structure Charged (others : List CString) (s : Server W G) : Prop where
  counted : s.st.peer.counted = true
  counts : QuotaSystem.Counts s.ipcount (charge others s.st.peer.remoteAddr)

/-- The session is counted under its address, and its address is the one that the headers of the
request have forwarded so far. -/
structure Attributed (others : List CString) (s : Server W G) : Prop extends
    Charged others s where
  forwarded : ∀ addr, forwardedAddr s.st.headers = some addr →
    ipStr addr = some s.st.peer.remoteAddr

/-! ### One header -/

theorem Charged.congr (h : Charged others s) (hpeer : s'.st.peer = s.st.peer)
    (hipcount : s'.ipcount = s.ipcount) : Charged others s' where
  counted := by rw [hpeer]; exact h.counted
  counts := by rw [hpeer, hipcount]; exact h.counts

/-- An address that text was converted to has a text. -/
theorem exists_ipStr {text : CString} {addr : Sock} (h : ipConvert text = some addr) :
    ∃ text', ipStr addr = some text' := by
  rw [ipConvert] at h
  split at h
  · obtain rfl := Option.some.inj h
    exact ⟨_, rfl⟩
  · obtain ⟨addr', -, rfl⟩ := Option.map_eq_some_iff.mp h
    exact ⟨_, rfl⟩

/-- The address of a connection changes, and what it is counted under with it. -/
theorem quotaChange_counts {ipcount : HashTable ℤ} {peer : Peer} {addr : Sock} {text : CString}
    (hcounted : peer.counted = true)
    (hcounts : QuotaSystem.Counts ipcount (charge others peer.remoteAddr))
    (htext : ipStr addr = some text) :
    ∃ r, ntripQuotaChange ipcount peer addr = some r ∧ r.1.counted = true ∧
      r.1.remoteAddr = text ∧ QuotaSystem.Counts r.2.1 (charge others text) := by
  obtain ⟨that, hdecr, hthat⟩ := hcounts.exists_decr peer.remoteAddr
  have hothers := hthat (fun a => others.count a) fun a => rfl
  refine ⟨ntripQuotaIncr that { peer with counted := false, remoteAddr := text }, ?_, rfl, rfl,
    (hothers.incr text _ fun a => rfl).1⟩
  rw [ntripQuotaChange, if_pos hcounted, ntripQuotaDecr, if_pos hcounted, hdecr, htext]
  rfl

/-- A header with an address, from a trusted peer. -/
theorem Attributed.handleForwardedHeader (header : Header) {headers : List Header}
    (hkind : header.kind = .forwarded) (hheaders : s.st.headers = headers ++ [header])
    (hs : Charged others s)
    (htrusts : (ipConvert (lastForwarded header.value)).isSome → trusts config s.st.peer = true) :
    okAll (fun _ => True) (fun r => Attributed others r.1)
      (handleForwardedHeader config s header.value) := by
  have hlast : forwardedAddr s.st.headers = ipConvert (lastForwarded header.value) := by
    rw [hheaders, forwardedAddr_append, if_pos hkind]
  rw [Ntripsrv.handleForwardedHeader]
  cases haddr : ipConvert (lastForwarded header.value) with
  | none =>
    have hsame : Attributed others s := ⟨hs, fun addr h => by
      rw [hlast, haddr] at h
      contradiction⟩
    split
    · exact hsame
    · exact hsame
  | some addr =>
    obtain ⟨text, htext⟩ := exists_ipStr haddr
    obtain ⟨r, hr, hrcounted, hrtext, hrcounts⟩ := quotaChange_counts hs.counted hs.counts htext
    rw [if_neg (by rw [htrusts (by rw [haddr]; rfl)]; decide)]
    dsimp only
    rw [hr]
    refine ⟨⟨hrcounted, by rw [← hrtext] at hrcounts; exact hrcounts⟩, fun addr' haddr' => ?_⟩
    dsimp only at haddr' ⊢
    rw [hlast, haddr] at haddr'
    rw [← Option.some.inj haddr', hrtext]
    exact htext

/-! ### One round -/

theorem Charged.worked (h : Charged others s) (hs : Worked s s') : Charged others s' :=
  h.congr (by rw [hs]) (by rw [hs])

theorem Charged.cleared (h : Charged others s) (hs : Cleared s s') : Charged others s' :=
  h.congr (by rw [hs]; rfl) (by rw [hs])

theorem Attributed.worked (h : Attributed others s) (hs : Worked s s') : Attributed others s' :=
  ⟨h.toCharged.worked hs, by rw [hs]; exact h.forwarded⟩

theorem Attributed.cleared (h : Attributed others s) (hs : Cleared s s') :
    Attributed others s' := by
  refine ⟨h.toCharged.cleared hs, fun addr haddr => ?_⟩
  rw [hs] at haddr
  contradiction

/-- A header line, with a trusted peer if it forwards an address. -/
theorem Attributed.handleHeader (h : Attributed others s) {key value : CString}
    (htrusts : headerKind config key = .forwarded →
      (ipConvert (lastForwarded value)).isSome → trusts config s.st.peer = true) :
    okAll (fun _ => True) (fun r => Attributed others r.1)
      (handleHeader c config (s.addHeader config key value) key value) := by
  rw [Ntripsrv.handleHeader]
  dsimp only
  split
  · next hkind =>
    exact handleForwardedHeader ⟨headerKind config key, key, value⟩ hkind rfl
      ⟨h.counted, h.counts⟩ (htrusts hkind)
  · next hkind =>
    have hset := setHeader_set c config (s.addHeader config key value).st value
      (headerKind config key)
    refine ⟨h.toCharged.congr hset.peer rfl, ?_⟩
    rw [hset.peer, hset.headers]
    intro addr haddr
    rw [Server.addHeader, forwardedAddr_append, if_neg hkind] at haddr
    exact h.forwarded addr haddr

/-- What a round must find if it reads a header with an address: a trusted peer. -/
def TrustsNext (config : Config) (s : Server W G) : Prop :=
  ∀ header, nextHeader config s = some header → header.kind = .forwarded →
    (ipConvert (lastForwarded header.value)).isSome → trusts config s.st.peer = true

/-- **One round.** -/
theorem Attributed.round (h : Attributed others s) (hnext : TrustsNext config s) :
    (round c config s).All (fun _ => True) (Attributed others) := by
  refine round_all (fun _ => h.worked) (fun _ => h.cleared)
    fun hstate line rest key value hhead => ?_
  have htake := worked_takeLine s line rest
  refine (h.worked htake).handleHeader fun hkind hvalid => ?_
  have hpeer : (s.takeLine line rest).st.peer = s.st.peer := by rw [htake]
  rw [hpeer]
  exact hnext _ hhead hkind hvalid

/-! ### Runs -/

/-- A connection, and the addresses under which the other sessions of the caster are counted. -/
structure Proxied (W G : Type) where
  srv : Server W G
  others : List CString

/-- What happens to the connection and to the table of the quotas. -/
inductive ProxiedLabel (W : Type)
  | server (l : Label W)
  /-- another session is counted under an address -/
  | join (a : CString)
  /-- another session is no longer counted -/
  | leave (a : CString)

/-- Another session joins or leaves. -/
theorem Charged.join (h : Charged others s) (a : CString) :
    Charged (a :: others) { s with ipcount := (s.ipcount.incr a).1 } := by
  refine ⟨h.counted, (h.counts.incr a _ fun b => ?_).1⟩
  rw [charge, charge]
  dsimp only
  rcases eq_or_ne b a with rfl | hne
  · rw [List.count_cons_self, if_pos (rfl : b = b)]
    omega
  · rw [List.count_cons_of_ne hne.symm, if_neg hne]
    omega

theorem Charged.leave (h : Charged others s) {a : CString} (ha : a ∈ others)
    {ipcount : HashTable ℤ} (hdecr : s.ipcount.decr a = some ipcount) :
    Charged (others.erase a) { s with ipcount := ipcount } := by
  obtain ⟨that, hthat, hcounts⟩ := h.counts.exists_decr a
  obtain rfl : ipcount = that := Option.some.inj (hdecr.symm.trans hthat)
  refine ⟨h.counted, hcounts _ fun b => ?_⟩
  rw [charge, charge]
  dsimp only
  rcases eq_or_ne b a with rfl | hne
  · have hpos : 0 < others.count b := List.count_pos_iff.mpr ha
    rw [List.count_erase_self, if_pos (rfl : b = b)]
    omega
  · rw [List.count_erase_of_ne hne, if_neg hne]
    rfl

namespace Proxied

/-- One step. -/
def step (c : Caster W G) (p : Proxied W G) : ProxiedLabel W → Option (Proxied W G)
  | .server l => (p.srv.stepOk c l).map fun srv => { p with srv := srv }
  | .join a =>
    some ⟨{ p.srv with ipcount := (p.srv.ipcount.incr a).1 }, a :: p.others⟩
  | .leave a =>
    if a ∈ p.others then
      (p.srv.ipcount.decr a).map fun ipcount =>
        ⟨{ p.srv with ipcount := ipcount }, p.others.erase a⟩
    else none

/-- The condition: a header with an address is only read from a trusted peer. -/
def Trusted (c : Caster W G) (p : Proxied W G) : ProxiedLabel W → Prop
  | .server (.read config bytes) =>
    ∀ s ∈ visited c config (p.srv.receive bytes), TrustsNext config s
  | _ => True

/-- The reads of a connection whose peer is in no trusted prefix. -/
def Untrusted (peer : Peer) (_ : Proxied W G) : ProxiedLabel W → Prop
  | .server (.read config _) => trusts config peer = false
  | _ => True

/-- The connection is attributed. -/
def Attributed (p : Proxied W G) : Prop := Ntripsrv.Attributed p.others p.srv

variable {p p' : Proxied W G}

/-- What the steps of the connection keep, and what its quota entry keeps, holds after each step. -/
theorem step_keeps (Inv : Server W G → Prop) {l : ProxiedLabel W}
    (hserver : ∀ l', l = .server l' → Charged p.others p.srv → Inv p.srv →
      okAll (fun _ => True) (fun s' => Charged p.others s' ∧ Inv s') (p.srv.step c l'))
    (hipcount : ∀ ipcount, Inv p.srv → Inv { p.srv with ipcount := ipcount })
    (hcharged : Charged p.others p.srv) (hinv : Inv p.srv) (hstep : p.step c l = some p') :
    Charged p'.others p'.srv ∧ Inv p'.srv := by
  cases l with
  | server l =>
    obtain ⟨srv, hsrv, rfl⟩ := Option.map_eq_some_iff.mp hstep
    have hok := hserver l rfl hcharged hinv
    rw [Server.stepOk] at hsrv
    cases hcall : p.srv.step c l with
    | error f =>
      rw [hcall] at hsrv
      contradiction
    | ok s' =>
      rw [hcall] at hok hsrv
      obtain rfl := Option.some.inj hsrv
      exact hok
  | join a =>
    obtain rfl := Option.some.inj hstep
    exact ⟨hcharged.join a, hipcount _ hinv⟩
  | leave a =>
    rw [Proxied.step] at hstep
    split at hstep
    · next ha =>
      obtain ⟨ipcount, hdecr, rfl⟩ := Option.map_eq_some_iff.mp hstep
      exact ⟨hcharged.leave ha hdecr, hipcount _ hinv⟩
    · contradiction

/-- **One step that meets the condition.** -/
theorem Attributed.step (h : p.Attributed) {l : ProxiedLabel W} (hl : p.Trusted c l)
    (hstep : p.step c l = some p') : p'.Attributed := by
  have hkeep := step_keeps (fun s => ∀ addr, forwardedAddr s.st.headers = some addr →
    ipStr addr = some s.st.peer.remoteAddr) (fun l' hl' hcharged hforwarded => ?_)
    (fun _ hinv => hinv) h.toCharged h.forwarded hstep
  · exact ⟨hkeep.1, hkeep.2⟩
  · subst hl'
    have hattributed : Ntripsrv.Attributed p.others p.srv := ⟨hcharged, hforwarded⟩
    have hserver : okAll (fun _ => True) (Ntripsrv.Attributed p.others) (p.srv.step c l') := by
      by_cases hread : ∃ config bytes, l' = .read config bytes
      · obtain ⟨config, bytes, rfl⟩ := hread
        exact read_all (TrustsNext config) (fun _ _ hs => hs.worked) (fun _ hs => hs.round)
          hattributed hl
      · exact (step_worked fun config bytes hl => hread ⟨config, bytes, hl⟩).mono fun _ =>
          hattributed.worked
    exact hserver.mono fun _ hs => ⟨hs.toCharged, hs.forwarded⟩

/-- A header that is not trusted. -/
theorem handleHeader_untrusted {key value : CString} (htrusts : trusts config s.st.peer = false) :
    okAll (fun _ => True) (fun r => r.1.st.peer = s.st.peer ∧ r.1.ipcount = s.ipcount)
      (handleHeader c config s key value) := by
  rw [handleHeader]
  dsimp only
  split
  · rw [handleForwardedHeader, if_pos htrusts]
    exact ⟨rfl, rfl⟩
  · exact ⟨(setHeader_set c config s.st value (headerKind config key)).peer, rfl⟩

/-- The connection has its own address, and is counted under it. -/
def OfPeer (peer : Peer) (p : Proxied W G) : Prop :=
  Charged p.others p.srv ∧ p.srv.st.peer = peer

/-- **One step of a connection that is not trusted.** -/
theorem Untrusted.step {peer : Peer} (hcharged : Charged p.others p.srv)
    (hpeer : p.srv.st.peer = peer) {l : ProxiedLabel W} (hl : p.Untrusted peer l)
    (hstep : p.step c l = some p') : p'.OfPeer peer := by
  refine step_keeps (fun s => s.st.peer = peer) (fun l' hl' hcharged hpeer => ?_)
    (fun _ hinv => hinv) hcharged hpeer hstep
  subst hl'
  have hwork (s s' : Server W G) (hs : Charged p.others s ∧ s.st.peer = peer) (h : Worked s s') :
      Charged p.others s' ∧ s'.st.peer = peer := ⟨hs.1.worked h, by rw [h]; exact hs.2⟩
  by_cases hread : ∃ config bytes, l' = .read config bytes
  · obtain ⟨config, bytes, rfl⟩ := hread
    refine read_all (fun _ => True) hwork (fun s hs _ => ?_) ⟨hcharged, hpeer⟩
      fun _ _ => trivial
    refine round_all (fun s' => hwork s s' hs) (fun s' hs' => ⟨hs.1.cleared hs', by
      rw [hs']; exact hs.2⟩) fun _ line rest key value _ => ?_
    have htake := hwork s _ hs (worked_takeLine s line rest)
    refine (handleHeader_untrusted (s := (s.takeLine line rest).addHeader config key value)
      (by rw [← htake.2] at hl; exact hl)).mono fun r hr => ?_
    exact ⟨htake.1.congr hr.1 hr.2, hr.1.trans htake.2⟩
  · exact (step_worked fun config bytes hl => hread ⟨config, bytes, hl⟩).mono fun s' =>
      hwork p.srv s' ⟨hcharged, hpeer⟩

/-- **Forwarded addresses.** As long as `st->peeraddr` is in a trusted prefix when a header with an
address is read, the connection is counted once, under the address forwarded by the headers of the
current request. A connection whose peer is in no trusted prefix is counted under its peer. -/
theorem reachable_attributed {peer : Peer} {w : W} {ipcount : HashTable ℤ} {others : List CString}
    (hcounted : peer.counted = true)
    (hcounts : QuotaSystem.Counts ipcount (charge others peer.remoteAddr)) :
    (∀ p, Transition.Reachable (· = ⟨.accepted peer w ipcount, others⟩) (Trusted c) (step c) p →
      p.Attributed ∧ ∀ config bytes, p.Trusted c (.server (.read config bytes)) →
        ∀ s ∈ visited c config (p.srv.receive bytes), Ntripsrv.Attributed p.others s) ∧
    ∀ p : Proxied W G,
      Transition.Reachable (· = ⟨.accepted peer w ipcount, others⟩) (Untrusted peer) (step c) p →
      p.srv.st.peer = peer ∧ Charged p.others p.srv := by
  have hinit : Charged (W := W) (G := G) others (.accepted peer w ipcount) := ⟨hcounted, hcounts⟩
  refine ⟨fun p hp => ?_, fun p hp => ?_⟩
  · have hattributed : p.Attributed := by
      refine hp.invariant ?_ fun p l p' hp hl hstep => hp.step hl hstep
      rintro _ rfl
      exact ⟨hinit, fun addr haddr => by contradiction⟩
    exact ⟨hattributed, fun config bytes hl => visited_all (TrustsNext config)
      (filterInput_worked.mono fun _ => (hattributed.worked (worked_receive _ bytes)).worked)
      (fun _ hs => hs.round) hl⟩
  · have h : p.OfPeer peer := by
      refine hp.invariant ?_ fun p l p' hp hl hstep => Untrusted.step hp.1 hp.2 hl hstep
      rintro _ rfl
      exact ⟨hinit, rfl⟩
    exact ⟨h.2, h.1⟩

/-! ### Two runs -/

instance (s : Server W G) : Decidable (TrustsNext config s) :=
  inferInstanceAs (Decidable (∀ header ∈ nextHeader config s, header.kind = .forwarded →
    (ipConvert (lastForwarded header.value)).isSome → trusts config s.st.peer = true))

instance (p : Proxied W G) : (l : ProxiedLabel W) → Decidable (p.Trusted c l)
  | .server (.read config bytes) => inferInstanceAs (Decidable
      (∀ s ∈ visited c config (p.srv.receive bytes), TrustsNext config s))
  | .server (.job _) => inferInstanceAs (Decidable True)
  | .server .written => inferInstanceAs (Decidable True)
  | .server .hangup => inferInstanceAs (Decidable True)
  | .server (.caster _) => inferInstanceAs (Decidable True)
  | .join _ => inferInstanceAs (Decidable True)
  | .leave _ => inferInstanceAs (Decidable True)

/-- The small caster behind the proxy `10.0.0.1`. -/
def proxyConfig : Config :=
  { smallConfig with trustedHttpProxyPrefixes := [⟨.quad 10 0 0 1, 32⟩] }

/-- The table that counts the proxy. -/
def proxyCount : HashTable ℤ :=
  ((HashTable.new 509 HashTable.zero_lt_509).incr smallPeer.remoteAddr).1

/-- The connection of the proxy, when it is accepted. -/
def proxied : Proxied Unit Unit := ⟨.accepted smallPeer () proxyCount, []⟩

theorem counts_proxyCount :
    QuotaSystem.Counts proxyCount (charge [] smallPeer.remoteAddr) := by
  have hnew : QuotaSystem.Counts (HashTable.new 509 HashTable.zero_lt_509) fun _ => 0 := by
    intro a
    rw [HashTable.get_new]
    rfl
  exact (hnew.incr smallPeer.remoteAddr _ fun a => by simp [charge]).1

/-- A request that the proxy forwards. -/
def forwardedRequest : List (ProxiedLabel Unit) :=
  [.server (.read proxyConfig (cstr "GET / HTTP/1.1\r\nConnection: keep-alive\r\n")),
    .server (.read proxyConfig (cstr "X-Forwarded-For: 192.0.2.1\r\n\r\n"))]

/-- A second request that it forwards. -/
def secondRequest : List (ProxiedLabel Unit) :=
  forwardedRequest ++
  ([.server (.read proxyConfig (cstr "GET / HTTP/1.1\r\nConnection: keep-alive\r\n")),
    .server (.read proxyConfig (cstr "X-Forwarded-For: 192.0.2.2\r\n\r\n"))] :
      List (ProxiedLabel Unit))

/-- What becomes of the two requests, in one computation. -/
theorem observed_forwarded :
    (forwardedRequest.foldlM (fun (p : Proxied Unit Unit) l =>
      if p.Trusted (smallCaster false) l then p.step (smallCaster false) l else none) proxied).map
      (fun p => p.srv.st.peer.remoteAddr) = some (cstr "192.0.2.1") ∧
    (secondRequest.foldlM (fun (p : Proxied Unit Unit) l =>
      if True then p.step (smallCaster false) l else none) proxied).map
      (fun p => (forwardedAddr p.srv.st.headers, p.srv.st.peer.remoteAddr)) =
      some (some (.quad 192 0 2 2), cstr "192.0.2.1") := by
  decide +kernel

theorem reachable_attributed_forwardedRequest : ∃ p : Proxied Unit Unit,
    Transition.Reachable (· = proxied) (Trusted (smallCaster false)) (step (smallCaster false)) p ∧
      p.srv.st.peer.remoteAddr = cstr "192.0.2.1" ∧ p.Attributed := by
  obtain ⟨p, hrun, haddr⟩ := Option.map_eq_some_iff.mp observed_forwarded.1
  have hp : Transition.Reachable (· = proxied) (Trusted (smallCaster false))
      (step (smallCaster false)) p := Transition.reachable_of_foldlM (.refl rfl) hrun
  exact ⟨p, hp, haddr, ((reachable_attributed rfl counts_proxyCount).1 p hp).1⟩

/-- **The second address is ignored.** The first one has replaced the peer, and is not a proxy. -/
theorem second_forwarded_ignored : trusts proxyConfig smallPeer = true ∧ ∃ p : Proxied Unit Unit,
    Transition.Reachable (· = proxied) (fun _ _ => True) (step (smallCaster false)) p ∧
      forwardedAddr p.srv.st.headers = some (.quad 192 0 2 2) ∧
      p.srv.st.peer.remoteAddr = cstr "192.0.2.1" := by
  refine ⟨by decide +kernel, ?_⟩
  obtain ⟨p, hrun, hp⟩ := Option.map_eq_some_iff.mp observed_forwarded.2
  obtain ⟨hforwarded, haddr⟩ := Prod.mk.inj hp
  exact ⟨p, Transition.reachable_of_foldlM (.refl rfl) hrun, hforwarded, haddr⟩

end Proxied

end Ntripsrv

end ChilopodCaster
