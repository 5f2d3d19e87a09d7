import ChilopodCaster.Hash
import ChilopodCaster.Ip
import ChilopodCaster.Lib.Holdings
import ChilopodCaster.Lib.Transition

/-!
# IP quotas

The caster counts the connections it has accepted from each address, in the table `ipcount`, and
refuses an address that has more of them than its quota (`ntrip_common.c`). The key of a connection
in the table is its field `remote_addr`. A forwarded address changes that field: the connection is
then counted under the new address, and checked again. A connection is counted, whether or not it
passed the check, until it is freed: at once without threads, or by a job with threads.

What is done under `quotalock` is one step. The check uses the count returned by this step and the
configuration of the session, so it is part of the same step. The counts are integers: there are
fewer connections than an `int` can count.

## Main definitions

* `Peer`, `ntripQuotaIncr`, `ntripQuotaDecr`, `ntripQuotaChange`, `ntripQuotaGet`,
  `ntripQuotaCheck` — the functions of the source; `none` where an assertion fails
* `QuotaSystem` — all sessions and the table

## Main results

* `QuotaSystem.reachable_exact` — the table counts the sessions of each address, and an address with
  a fixed quota never has more sessions that passed the check than its quota
-/

namespace ChilopodCaster

/-! ### The functions of the source -/

/-- The fields of `struct ntrip_state` for the address of the other end. -/
structure Peer where
  counted : Bool
  peeraddr : Sock
  remoteAddr : CString
  deriving DecidableEq, Repr

/-- The fields as `ntrip_new` sets them. -/
def Peer.new : Peer := ⟨false, .unspec, []⟩

/-- `ntrip_set_peeraddr`. -/
def ntripSetPeeraddr (this : Peer) (sa : Sock) : Peer :=
  { this with peeraddr := sa, remoteAddr := (ipStr sa).getD this.remoteAddr }

/-- `ntrip_quota_incr`, with the new count. -/
def ntripQuotaIncr (ipcount : HashTable ℤ) (this : Peer) : Peer × HashTable ℤ × ℤ :=
  ({ this with counted := true }, ipcount.incr this.remoteAddr)

/-- `ntrip_quota_decr`. -/
def ntripQuotaDecr (ipcount : HashTable ℤ) (this : Peer) : Option (Peer × HashTable ℤ) :=
  if this.counted then
    (ipcount.decr this.remoteAddr).map fun ipcount => ({ this with counted := false }, ipcount)
  else some (this, ipcount)

/-- `ntrip_quota_change`, with the new count. -/
def ntripQuotaChange (ipcount : HashTable ℤ) (this : Peer) (addr : Sock) :
    Option (Peer × HashTable ℤ × ℤ) :=
  (if this.counted then ntripQuotaDecr ipcount this else some (this, ipcount)).map fun r =>
    ntripQuotaIncr r.2 { r.1 with remoteAddr := (ipStr addr).getD r.1.remoteAddr }

/-- `ntrip_quota_get`, where `blocklist` is that of the configuration of the session. -/
def ntripQuotaGet (blocklist : Option PrefixTable) (addr : Sock) : ℤ :=
  match blocklist with
  | some blocklist => blocklist.getQuota addr
  | none => -1

/-- `ntrip_quota_check`: whether the connection is within its quota. -/
def ntripQuotaCheck (quota ipcount : ℤ) : Bool := !(quota ≥ 0 ∧ ipcount > quota)

/-! ### All sessions -/

/-- Where a session is in its life. -/
inductive QuotaStage
  | live
  /-- `NTRIP_END` -/
  | ended
  /-- on `free_queue`, after `ntrip_deferred_free2` -/
  | unlinked
  | freed
  deriving DecidableEq, Repr

/-- A session, as far as quotas go. -/
structure QuotaSession where
  peer : Peer
  /-- an outgoing session, which is not counted -/
  client : Bool
  /-- whether its last check passed -/
  passed : Bool
  stage : QuotaStage
  deriving DecidableEq, Repr

/-- The sessions there have been, known by their rank, the table, and the checks that were made: for
which address, and with which quota. -/
structure QuotaSystem where
  sessions : List QuotaSession
  ipcount : HashTable ℤ
  checks : List (CString × ℤ)

/-- What happens to the sessions. A check comes with the blocklist of the configuration in force. -/
inductive QuotaStep
  /-- `ntripsrv_listener_cb`: a connection is accepted and `ntrip_register_check` is called -/
  | accept (sa : Sock) (blocklist : Option PrefixTable)
  /-- `ntripcli_start`: an outgoing connection, with `ntrip_register` -/
  | outgoing
  /-- an outgoing connection succeeds -/
  | connected (st : ℕ) (sa : Sock)
  /-- a forwarded address: `ntrip_quota_change`, then a check -/
  | change (st : ℕ) (addr : Sock) (blocklist : Option PrefixTable)
  /-- `ntrip_decref_end`, after a refusal or for any other reason -/
  | finish (st : ℕ)
  /-- `ntrip_free`, at once without threads -/
  | free (st : ℕ)
  /-- `ntrip_deferred_free2`, the job with threads -/
  | deferredFree2 (st : ℕ)
  /-- `ntrip_deferred_run` frees the session -/
  | deferredRun (st : ℕ)

namespace QuotaSystem

/-- No session yet. -/
def new : QuotaSystem := ⟨[], .new 509 HashTable.zero_lt_509, []⟩

/-- The quota of the session is given back, and the session goes to its next stage. -/
def release (s : QuotaSystem) (st : ℕ) (stage : QuotaStage) : Option QuotaSystem :=
  s.sessions[st]?.bind fun x =>
    if x.stage ≠ .ended then none
    else (ntripQuotaDecr s.ipcount x.peer).map fun r =>
      { s with
        sessions := s.sessions.set st { x with peer := r.1, stage := stage }
        ipcount := r.2 }

/-- One step. -/
def step (s : QuotaSystem) : QuotaStep → Option QuotaSystem
  | .accept sa blocklist =>
    let r := ntripQuotaIncr s.ipcount (ntripSetPeeraddr .new sa)
    let quota := ntripQuotaGet blocklist r.1.peeraddr
    some
      { sessions := s.sessions ++ [⟨r.1, false, ntripQuotaCheck quota r.2.2, .live⟩]
        ipcount := r.2.1
        checks := s.checks ++ [(r.1.remoteAddr, quota)] }
  | .outgoing => some { s with sessions := s.sessions ++ [⟨.new, true, false, .live⟩] }
  | .connected st sa =>
    s.sessions[st]?.bind fun x =>
      if x.client = false ∨ x.stage ≠ .live then none
      else some
        { s with sessions := s.sessions.set st { x with peer := ntripSetPeeraddr x.peer sa } }
  | .change st addr blocklist =>
    s.sessions[st]?.bind fun x =>
      if x.client ∨ x.stage ≠ .live then none
      else (ntripQuotaChange s.ipcount x.peer addr).map fun r =>
        let quota := ntripQuotaGet blocklist addr
        { sessions := s.sessions.set st
            { x with
              peer := { r.1 with peeraddr := addr }
              passed := ntripQuotaCheck quota r.2.2 }
          ipcount := r.2.1
          checks := s.checks ++ [(r.1.remoteAddr, quota)] }
  | .finish st =>
    s.sessions[st]?.bind fun x =>
      if x.stage ≠ .live then none
      else some { s with sessions := s.sessions.set st { x with stage := .ended } }
  | .free st => s.release st .freed
  | .deferredFree2 st => s.release st .unlinked
  | .deferredRun st =>
    s.sessions[st]?.bind fun x =>
      if x.stage ≠ .unlinked then none
      else some { s with sessions := s.sessions.set st { x with stage := .freed } }

/-- A session counted under an address. -/
def Charged (a : CString) (x : QuotaSession) : Bool := x.peer.counted ∧ x.peer.remoteAddr = a

/-- A live session that passed the check under an address. -/
def Admitted (a : CString) (x : QuotaSession) : Bool :=
  x.stage = .live ∧ x.passed ∧ x.peer.remoteAddr = a

/-- The number of sessions counted under an address. -/
def charged (s : QuotaSystem) (a : CString) : ℕ := s.sessions.countP (Charged a)

/-- The number of live sessions that passed the check under an address. -/
def admitted (s : QuotaSystem) (a : CString) : ℕ := s.sessions.countP (Admitted a)

/-- The states of all runs. -/
abbrev Reachable : QuotaSystem → Prop :=
  Transition.Reachable (· = new) (fun _ _ => True) step

/-! ### The invariant -/

/-- The entry of the table for a number of sessions. -/
def entry (n : ℕ) : Option ℤ := if n = 0 then none else some n

/-- A table counts what `count` says. -/
def Counts (ipcount : HashTable ℤ) (count : CString → ℕ) : Prop :=
  ∀ a, ipcount.get a = entry (count a)

theorem getD_entry (n : ℕ) : (entry n).getD 0 = n := by
  rw [entry]
  split
  · next h => rw [h]; rfl
  · rfl

theorem Counts.incr {ipcount : HashTable ℤ} {count : CString → ℕ} (h : Counts ipcount count)
    (key : CString) (count' : CString → ℕ)
    (hcount : ∀ a, count' a = count a + if a = key then 1 else 0) :
    Counts (ipcount.incr key).1 count' ∧ (ipcount.incr key).2 = count' key := by
  constructor
  · intro a
    rw [HashTable.get_incr, h, h, getD_entry, hcount]
    split
    · next heq => rw [heq, entry, if_neg (Nat.succ_ne_zero _)]; rfl
    · rfl
  · rw [HashTable.incr_snd, h, getD_entry, hcount, if_pos rfl]
    rfl

/-- No counter is zero, so the assertion of `hash_table_decr` holds for every key. -/
theorem Counts.exists_decr {ipcount : HashTable ℤ} {count : CString → ℕ}
    (h : Counts ipcount count) (key : CString) :
    ∃ that, ipcount.decr key = some that ∧ ∀ count' : CString → ℕ,
      (∀ a, count' a + (if a = key then 1 else 0) = count a) → Counts that count' := by
  have hkey := h key
  by_cases hzero : count key = 0
  · rw [entry, if_pos hzero] at hkey
    refine ⟨ipcount, by rw [HashTable.decr, hkey], fun count' hcount => ?_⟩
    have := hcount key
    rw [if_pos rfl] at this
    omega
  · rw [entry, if_neg hzero] at hkey
    obtain ⟨that, hdecr, hget⟩ := HashTable.exists_decr hkey (by omega)
    refine ⟨that, hdecr, fun count' hcount a => ?_⟩
    rw [hget]
    split
    · next heq =>
      have := hcount key
      rw [if_pos rfl] at this
      rw [heq, entry]
      split_ifs with h1 h2 h2
      · rfl
      · omega
      · omega
      · rw [← this]; simp
    · next hne =>
      have := hcount a
      rw [if_neg hne] at this
      rw [h, ← this]
      rfl

/-- The invariant of a session: an outgoing one is not counted, and a live one that was accepted
is. -/
def Sensible (x : QuotaSession) : Prop :=
  (x.client → x.peer.counted = false ∧ x.passed = false) ∧
    (x.client = false → x.stage = .live → x.peer.counted)

/-- The invariant. -/
structure Exact (s : QuotaSystem) : Prop where
  counts : Counts s.ipcount s.charged
  sensible : ∀ x ∈ s.sessions, Sensible x
  quota : ∀ a q, 0 ≤ q → (∀ c ∈ s.checks, c.1 = a → c.2 = q) → (s.admitted a : ℤ) ≤ q

variable {s s' : QuotaSystem} {x y : QuotaSession} {st : ℕ}

/-- A session that passed the check under an address is counted under it. -/
theorem Sensible.charged (h : Sensible x) {a : CString} (hx : Admitted a x) : Charged a x := by
  obtain ⟨hlive, hpassed, ha⟩ := of_decide_eq_true hx
  cases hclient : x.client with
  | true =>
    rw [(h.1 hclient).2] at hpassed
    contradiction
  | false => exact decide_eq_true ⟨h.2 hclient hlive, ha⟩

theorem of_admitted {a : CString} (hx : Admitted a x) :
    a = x.peer.remoteAddr ∧ x.passed = true := by
  obtain ⟨-, hpassed, ha⟩ := of_decide_eq_true hx
  exact ⟨ha.symm, hpassed⟩

theorem admitted_append (a : CString) : (s.sessions ++ [x]).countP (Admitted a) =
    s.admitted a + if Admitted a x then 1 else 0 := by
  rw [List.countP_append, List.countP_singleton]
  rfl

theorem charged_append (a : CString) : (s.sessions ++ [x]).countP (Charged a) =
    s.charged a + if Charged a x then 1 else 0 := by
  rw [List.countP_append, List.countP_singleton]
  rfl

/-- After a check, the address checked has its sessions in the table, and no address has more
sessions that passed than before. -/
theorem quota_of_check {a₀ : CString} {q₀ n : ℤ} {checks : List (CString × ℤ)}
    {admitted admitted' charged' : CString → ℕ}
    (h : ∀ a q, 0 ≤ q → (∀ c ∈ checks, c.1 = a → c.2 = q) → (admitted a : ℤ) ≤ q)
    (hcharged : ∀ a, admitted' a ≤ charged' a) (hn : n = charged' a₀)
    (hpass : ∀ a, admitted a < admitted' a → a = a₀ ∧ ntripQuotaCheck q₀ n) :
    ∀ a q, 0 ≤ q → (∀ c ∈ checks ++ [(a₀, q₀)], c.1 = a → c.2 = q) → (admitted' a : ℤ) ≤ q := by
  intro a q hq hchecks
  have hold := h a q hq fun c hc => hchecks c (List.mem_append_left _ hc)
  by_cases hlt : admitted a < admitted' a
  · obtain ⟨rfl, hcheck⟩ := hpass a hlt
    obtain rfl : q₀ = q := hchecks (a, q₀) (by simp) rfl
    rw [ntripQuotaCheck] at hcheck
    have hle : n ≤ q₀ := by
      by_contra hgt
      simp [hq, not_le.mp hgt] at hcheck
    have := hcharged a
    omega
  · omega

/-! ### What each step keeps -/

/-- How a replaced session changes the numbers. -/
theorem charged_set (hx : s.sessions[st]? = some x) (y : QuotaSession) (a : CString) :
    (s.sessions.set st y).countP (Charged a) + (if Charged a x then 1 else 0) =
      s.charged a + if Charged a y then 1 else 0 :=
  Holdings.countP_set_add _ hx

theorem admitted_set (hx : s.sessions[st]? = some x) (y : QuotaSession) (a : CString) :
    (s.sessions.set st y).countP (Admitted a) + (if Admitted a x then 1 else 0) =
      s.admitted a + if Admitted a y then 1 else 0 :=
  Holdings.countP_set_add _ hx

theorem sensible_set (h : ∀ x ∈ s.sessions, Sensible x) (hy : Sensible y) :
    ∀ x ∈ s.sessions.set st y, Sensible x := by
  intro z hz
  rcases List.mem_or_eq_of_mem_set hz with hz | rfl
  · exact h z hz
  · exact hy

/-- A session that changes neither its charge nor, if it did not pass before, its admission. -/
theorem Exact.set (h : s.Exact) (hx : s.sessions[st]? = some x) (hy : Sensible y)
    (hcharged : ∀ a, Charged a y = Charged a x) (hadmitted : ∀ a, Admitted a y → Admitted a x) :
    Exact { s with sessions := s.sessions.set st y } where
  counts a := by
    have := charged_set hx y a
    rw [hcharged a] at this
    rw [charged, Nat.add_right_cancel this]
    exact h.counts a
  sensible := sensible_set h.sensible hy
  quota a q hq hchecks := by
    have hset := admitted_set hx y a
    have hle : (if Admitted a y then 1 else 0) ≤ if Admitted a x then 1 else 0 := by
      split
      · next hady => rw [if_pos (hadmitted a hady)]
      · exact Nat.zero_le _
    have := h.quota a q hq hchecks
    rw [admitted]
    dsimp only at hset ⊢
    omega

theorem charged_of_counted {a : CString} (hcounted : x.peer.counted = true) :
    (if Charged a x then 1 else 0) = if a = x.peer.remoteAddr then 1 else 0 := by
  rw [Charged, hcounted]
  simp [eq_comm]

theorem charged_of_not_counted {a : CString} (hcounted : x.peer.counted = false) :
    (if Charged a x then 1 else 0) = 0 := by
  rw [Charged, hcounted]
  simp

theorem Exact.accept (h : s.Exact) {sa : Sock} {blocklist : Option PrefixTable}
    (hstep : s.step (.accept sa blocklist) = some s') : s'.Exact := by
  obtain rfl := Option.some.inj hstep
  set peer := ntripSetPeeraddr .new sa
  set quota := ntripQuotaGet blocklist peer.peeraddr
  set y : QuotaSession := ⟨{ peer with counted := true }, false,
    ntripQuotaCheck quota (s.ipcount.incr peer.remoteAddr).2, .live⟩
  have hsensible : ∀ x ∈ s.sessions ++ [y], Sensible x := by
    intro x hx
    rcases List.mem_append.mp hx with hx | hx
    · exact h.sensible x hx
    · rw [List.mem_singleton.mp hx]
      exact ⟨by simp [y], by simp [y]⟩
  obtain ⟨hcounts, hn⟩ := h.counts.incr peer.remoteAddr
    (fun a => (s.sessions ++ [y]).countP (Charged a)) fun a => by
      rw [charged_append, charged_of_counted (x := y) rfl]
  have hle (a : CString) : (s.sessions ++ [y]).countP (Admitted a) ≤
      (s.sessions ++ [y]).countP (Charged a) :=
    List.countP_mono_left fun x hx => (hsensible x hx).charged
  have hpass (a : CString) (hlt : s.admitted a < (s.sessions ++ [y]).countP (Admitted a)) :
      a = peer.remoteAddr ∧ ntripQuotaCheck quota (s.ipcount.incr peer.remoteAddr).2 := by
    rw [admitted_append] at hlt
    refine of_admitted (x := y) ?_
    by_contra hne
    rw [if_neg hne] at hlt
    omega
  exact ⟨hcounts, hsensible, quota_of_check h.quota hle hn hpass⟩

theorem Exact.outgoing (h : s.Exact) (hstep : s.step .outgoing = some s') : s'.Exact := by
  obtain rfl := Option.some.inj hstep
  refine ⟨fun a => ?_, ?_, fun a q hq hchecks => ?_⟩
  · rw [charged, charged_append, charged_of_not_counted rfl]
    exact h.counts a
  · intro x hx
    rcases List.mem_append.mp hx with hx | hx
    · exact h.sensible x hx
    · rw [List.mem_singleton.mp hx]
      exact ⟨fun _ => ⟨rfl, rfl⟩, by simp⟩
  · have := h.quota a q hq hchecks
    rw [admitted, admitted_append]
    simpa [Admitted] using this

theorem Exact.change (h : s.Exact) {addr : Sock} {blocklist : Option PrefixTable}
    (hstep : s.step (.change st addr blocklist) = some s') : s'.Exact := by
  obtain ⟨x, hx, hstep⟩ := Option.bind_eq_some_iff.mp hstep
  split at hstep
  · contradiction
  · next hguard =>
    rw [not_or, not_not, Bool.not_eq_true] at hguard
    obtain ⟨hclient, hlive⟩ := hguard
    have hcounted := (h.sensible x (List.mem_of_getElem? hx)).2 hclient hlive
    obtain ⟨⟨peer, ipcount, n⟩, hchange, rfl⟩ := Option.map_eq_some_iff.mp hstep
    obtain ⟨table, hdecr, htable⟩ := h.counts.exists_decr x.peer.remoteAddr
    rw [ntripQuotaChange, if_pos hcounted, ntripQuotaDecr, if_pos hcounted, hdecr] at hchange
    simp only [Option.map_some, Option.some.injEq, ntripQuotaIncr, Prod.mk.injEq] at hchange
    obtain ⟨rfl, hincr⟩ := hchange
    set a₀ := (ipStr addr).getD x.peer.remoteAddr
    set quota := ntripQuotaGet blocklist addr
    set y : QuotaSession := { x with
      peer := ⟨true, addr, a₀⟩
      passed := ntripQuotaCheck quota n }
    have hy : Sensible y := ⟨by simp [y, hclient], fun _ _ => rfl⟩
    have hsensible : ∀ z ∈ s.sessions.set st y, Sensible z := sensible_set h.sensible hy
    -- between the decrement and the increment, the session is not counted
    set count : CString → ℕ := fun a => s.charged a - if a = x.peer.remoteAddr then 1 else 0
    have hcount (a : CString) : count a + (if a = x.peer.remoteAddr then 1 else 0) =
        s.charged a := by
      have hpos : a = x.peer.remoteAddr → 0 < s.charged a := fun heq =>
        List.countP_pos_iff.mpr ⟨x, List.mem_of_getElem? hx, decide_eq_true ⟨hcounted, heq.symm⟩⟩
      simp only [count]
      split
      · next heq => have := hpos heq; omega
      · rfl
    have hset (a : CString) : (s.sessions.set st y).countP (Charged a) =
        count a + if a = a₀ then 1 else 0 := by
      have hset := charged_set hx y a
      rw [charged_of_counted hcounted, charged_of_counted (x := y) rfl, ← hcount a] at hset
      have ha₀ : y.peer.remoteAddr = a₀ := rfl
      rw [ha₀] at hset
      omega
    obtain ⟨hcounts, hn⟩ := (htable count hcount).incr a₀ _ hset
    rw [hincr] at hcounts hn
    have hle (a : CString) : (s.sessions.set st y).countP (Admitted a) ≤
        (s.sessions.set st y).countP (Charged a) :=
      List.countP_mono_left fun x hx => (hsensible x hx).charged
    have hpass (a : CString) (hlt : s.admitted a < (s.sessions.set st y).countP (Admitted a)) :
        a = a₀ ∧ ntripQuotaCheck quota n := by
      have hset := admitted_set hx y a
      refine of_admitted (x := y) ?_
      by_contra hne
      rw [if_neg hne] at hset
      omega
    exact ⟨hcounts, hsensible, quota_of_check h.quota hle hn hpass⟩

/-- A session that is over gives back what it was charged. -/
theorem Exact.release (h : s.Exact) {stage : QuotaStage} (hstage : stage ≠ .live)
    (hstep : s.release st stage = some s') : s'.Exact := by
  obtain ⟨x, hx, hstep⟩ := Option.bind_eq_some_iff.mp hstep
  split at hstep
  · contradiction
  · have hsx := h.sensible x (List.mem_of_getElem? hx)
    obtain ⟨⟨peer, ipcount⟩, hdecr, rfl⟩ := Option.map_eq_some_iff.mp hstep
    cases hcounted : x.peer.counted with
    | false =>
      rw [ntripQuotaDecr, if_neg (by simp [hcounted])] at hdecr
      obtain ⟨rfl, rfl⟩ := Prod.mk.inj (Option.some.inj hdecr)
      exact h.set hx ⟨hsx.1, fun _ hlive => absurd hlive hstage⟩ (fun _ => rfl)
        fun a ha => absurd (of_decide_eq_true ha).1 hstage
    | true =>
      obtain ⟨table, hdecr', htable⟩ := h.counts.exists_decr x.peer.remoteAddr
      rw [ntripQuotaDecr, if_pos hcounted, hdecr'] at hdecr
      obtain ⟨rfl, rfl⟩ := Prod.mk.inj (Option.some.inj hdecr)
      set y : QuotaSession := { x with peer := { x.peer with counted := false }, stage := stage }
      refine ⟨htable _ fun a => ?_, ?_, fun a q hq hchecks => ?_⟩
      · have := charged_set hx y a
        rw [charged_of_counted hcounted, charged_of_not_counted (x := y) rfl] at this
        exact this
      · exact sensible_set h.sensible
          ⟨fun hclient => ⟨rfl, (hsx.1 hclient).2⟩, fun _ hlive => absurd hlive hstage⟩
      · have hset := admitted_set hx y a
        have hy : ¬ Admitted a y := fun ha => hstage (of_decide_eq_true ha).1
        rw [if_neg hy] at hset
        have := h.quota a q hq hchecks
        rw [admitted]
        dsimp only
        omega

theorem Exact.step (h : s.Exact) {l : QuotaStep} (hstep : s.step l = some s') : s'.Exact := by
  cases l with
  | accept sa blocklist => exact h.accept hstep
  | outgoing => exact h.outgoing hstep
  | connected st sa =>
    obtain ⟨x, hx, hstep⟩ := Option.bind_eq_some_iff.mp hstep
    split at hstep
    · contradiction
    · next hguard =>
      rw [not_or, Bool.not_eq_false] at hguard
      obtain ⟨hcounted, hpassed⟩ := (h.sensible x (List.mem_of_getElem? hx)).1 hguard.1
      obtain rfl := Option.some.inj hstep
      refine h.set hx ⟨fun _ => ⟨hcounted, hpassed⟩, by simp [hguard.1]⟩ ?_ ?_
      · intro a
        simp [Charged, ntripSetPeeraddr, hcounted]
      · intro a ha
        simp [Admitted, hpassed] at ha
  | change st addr blocklist => exact h.change hstep
  | finish st =>
    obtain ⟨x, hx, hstep⟩ := Option.bind_eq_some_iff.mp hstep
    split at hstep
    · contradiction
    · have hsx := h.sensible x (List.mem_of_getElem? hx)
      obtain rfl := Option.some.inj hstep
      exact h.set hx ⟨hsx.1, by simp⟩ (fun _ => rfl) fun a ha => by simp [Admitted] at ha
  | free st => exact h.release (by simp) hstep
  | deferredFree2 st => exact h.release (by simp) hstep
  | deferredRun st =>
    obtain ⟨x, hx, hstep⟩ := Option.bind_eq_some_iff.mp hstep
    split at hstep
    · contradiction
    · have hsx := h.sensible x (List.mem_of_getElem? hx)
      obtain rfl := Option.some.inj hstep
      exact h.set hx ⟨hsx.1, by simp⟩ (fun _ => rfl) fun a ha => by simp [Admitted] at ha

theorem exact_new : new.Exact where
  counts a := HashTable.get_new HashTable.zero_lt_509 a
  sensible := by simp [new]
  quota a q hq _ := hq

/-- **Quotas are exact.** In every state of every run:
* the table maps each address to the number of sessions counted under it, and has no entry for an
  address without any;
* the assertion of `hash_table_decr` holds, whatever the key;
* if every check made for an address used the quota `q`, which is not -1, then at most `q` live
  sessions have passed the check under this address. -/
theorem reachable_exact (h : Reachable s) :
    (∀ a, s.ipcount.get a = if s.charged a = 0 then none else some (s.charged a : ℤ)) ∧
    (∀ a, (s.ipcount.decr a).isSome) ∧
    ∀ a q, 0 ≤ q → (∀ c ∈ s.checks, c.1 = a → c.2 = q) → (s.admitted a : ℤ) ≤ q := by
  have hs : s.Exact := by
    refine h.invariant ?_ fun s l s' hs _ hstep => hs.step hstep
    rintro _ rfl
    exact exact_new
  refine ⟨hs.counts, fun a => ?_, hs.quota⟩
  obtain ⟨that, hdecr, -⟩ := hs.counts.exists_decr a
  rw [hdecr]
  rfl

/-- A quota of 1 for one address: the second connection is over it, and counted until it is
freed. -/
def overQuota : List QuotaStep :=
  let addr : Sock := .quad 10 0 0 1
  let blocklist : Option PrefixTable := some ⟨[], [⟨⟨addr, 32⟩, 1⟩]⟩
  [.accept addr blocklist, .accept addr blocklist, .accept (.quad 10 0 0 2) blocklist,
    .finish 1, .change 2 addr blocklist, .deferredFree2 1]

theorem reachable_exact_overQuota :
    ∃ s, Reachable s ∧ s.ipcount.get (cstr "10.0.0.1") = some 2 ∧
      s.admitted (cstr "10.0.0.1") = 1 ∧ (s.ipcount.decr (cstr "10.0.0.1")).isSome := by
  have hobserve : (overQuota.foldlM (fun s l => if True then step s l else none) new).map
      (fun s => (s.charged (cstr "10.0.0.1"), s.admitted (cstr "10.0.0.1"))) = some (2, 1) := by
    decide +kernel
  obtain ⟨s, hrun, hs⟩ := Option.map_eq_some_iff.mp hobserve
  have hreach : Reachable s := Transition.reachable_of_foldlM (.refl rfl) hrun
  obtain ⟨hcharged, hadmitted⟩ := Prod.mk.inj hs
  obtain ⟨hcounts, hdecr, -⟩ := reachable_exact hreach
  refine ⟨s, hreach, ?_, hadmitted, hdecr _⟩
  rw [hcounts, hcharged]
  rfl

end QuotaSystem

end ChilopodCaster
