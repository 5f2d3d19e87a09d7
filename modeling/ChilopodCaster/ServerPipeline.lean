import ChilopodCaster.Lib.Transition
import ChilopodCaster.ServerKeepalive

/-!
# Requests that follow one another

A request on a connection that is kept is the first thing in a read, or it stands behind an earlier
one in the same read and the loop comes to it, or it stands there and the loop is left before it. If
no header of the earlier requests leaks, the first two are handled as on a new connection of the
same peer. The third only happens behind a `GET` under `/adm/`, after which the loop is left: the
request is then handled with the next read, and as on a new connection that receives both at once.

## Main definitions

* `Between` — the requests so far are complete, and have been answered
* `Server.fresh` — a new connection of the same peer to the same caster
* `Independent` — the requests that a read comes to are handled as on new connections

## Main results

* `reachable_fresh` — requests on a connection without such headers are independent
* `version_leaks` — a run in which the version of a client is taken for that of the next one
-/

namespace ChilopodCaster

namespace Ntripsrv

open ChunkDecode

variable {W G : Type} {c : Caster W G} {config : Config} {s s' : Server W G} {peer : Peer}

/-! ### Between two requests -/

/-- The requests so far are complete, and have been answered. -/
structure Between (s : Server W G) : Prop where
  state : s.st.state = .waitHttpMethod
  inFilter : s.st.inFilter = false
  jobs : s.jobs = []

/-- A new connection of a peer to the same caster. What has been logged and counted goes on. -/
def Server.fresh (peer : Peer) (s : Server W G) : Server W G where
  st := { NtripState.new G peer with receivedBytes := s.st.receivedBytes }
  w := s.w
  ipcount := s.ipcount
  jobs := []
  log := s.log

/-- Once its request is cleared, nothing is left of the connection but what it has not read. -/
theorem Kept.clearRequest_eq (h : Kept peer s) (hs : Between s) :
    s.clearRequest = ((s.fresh peer).receive s.st.rawInput).clearRequest := by
  have hcalm : Calm s.st := h.calm.resolve_right fun hstreaming =>
    hstreaming.notMethod hs.state
  obtain ⟨-, hlen, hinput⟩ := h.unchunked.out hs.inFilter
  simp only [Server.clearRequest, NtripState.clearRequest, Server.receive, Server.fresh,
    NtripState.new, hs.state, hs.inFilter, hs.jobs, hlen, hinput, h.settled.peer,
    h.settled.userAgentNtrip, h.settled.schemeBasic, hcalm.connectionKeepalive,
    hcalm.clientVersion, hcalm.lastPos, hcalm.sourceVirtual, List.nil_append]

/-- A request line is waited for, and there is something to read. -/
structure Ready (s : Server W G) : Prop where
  state : s.st.state = .waitHttpMethod
  inFilter : s.st.inFilter = false
  input : s.st.input = .rawInput
  rawInput : s.st.rawInput ≠ []

theorem Ready.inputBuf (h : Ready s) : s.st.inputBuf = some s.st.rawInput := by
  rw [NtripState.inputBuf, h.input]

/-- The callback goes into the loop. -/
theorem Ready.ntripsrvReadcb_eq (h : Ready s) : ntripsrvReadcb c config s = loop c config s := by
  have hfilter : filterInput s = .ok (s, true) := by
    rw [filterInput, ntripFilterRunInput, if_neg (by rw [h.inFilter]; decide)]
    rfl
  have hover : ¬ bodyOver s.st = true := by
    rw [bodyOver, h.inputBuf]
    simp [h.rawInput]
  rw [ntripsrvReadcb, hfilter]
  exact if_neg hover

/-- The loop starts with the request line. -/
theorem Ready.round_eq (h : Ready s) :
    round c config s = readLine config s.clearRequest 400 methodLine := by
  rw [round, h.state, if_neg (by decide), h.inputBuf]
  exact if_neg h.rawInput

/-- **The next request**, where nothing has leaked. -/
theorem Kept.loop_fresh (h : Kept peer s) (hs : Between s) (hraw : s.st.rawInput ≠ []) :
    loop c config s = (s.fresh peer).step c (.read config s.st.rawInput) := by
  have hready : Ready s := ⟨hs.state, hs.inFilter, (h.unchunked.out hs.inFilter).2.2, hraw⟩
  have hfresh : Ready ((s.fresh peer).receive s.st.rawInput) := ⟨rfl, rfl, rfl, hraw⟩
  rw [Server.step, if_neg SessionState.noConfusion, hfresh.ntripsrvReadcb_eq]
  refine loop_congr ?_
  rw [hready.round_eq, hfresh.round_eq, h.clearRequest_eq hs]

theorem Kept.step_fresh (h : Kept peer s) (hs : Between s) {bytes : List Byte}
    (hraw : s.st.rawInput ++ bytes ≠ []) :
    s.step c (.read config bytes) =
      (s.fresh peer).step c (.read config (s.st.rawInput ++ bytes)) := by
  have hinput : (s.receive bytes).st.input = .rawInput := (h.unchunked.out hs.inFilter).2.2
  have hready : Ready (s.receive bytes) := ⟨hs.state, hs.inFilter, hinput, hraw⟩
  have hbetween : Between (s.receive bytes) := ⟨hs.state, hs.inFilter, hs.jobs⟩
  rw [Server.step, if_neg (by rw [hs.state]; decide), hready.ntripsrvReadcb_eq,
    (h.receive bytes).loop_fresh hbetween hraw]
  rfl

/-! ### Requests behind others -/

/-- The invariant holds where a round starts, if the rounds before it have leaked nothing. -/
theorem Kept.visited (h : Kept peer s) {before after : List (Server W G)}
    (hvisited : visited c config s = before ++ s' :: after)
    (hbefore : ∀ s'' ∈ before, LeaksNothing c config s'') : Kept peer s' := by
  have hfilter : okAll (fun _ => True) (fun r => Kept peer r.1) (Ntripsrv.filterInput s) :=
    h.filterInput
  rw [Ntripsrv.visited] at hvisited
  split at hvisited
  · next s₁ hok =>
    rw [hok] at hfilter
    split at hvisited
    · exact absurd hvisited (by simp)
    · refine Loop.trace_at (fun s s' hs hleak hnext => ?_) hfilter hvisited hbefore
      have hround := hs.round hleak
      rw [hnext] at hround
      exact ⟨hround.1, hround.2.1, hround.2.2.imp_right fun h => h.2 rfl⟩
  · exact absurd hvisited (by simp)

/-- How the loop is left has a property. -/
def Outcome.Leaves (left : Server W G → Leave → Prop) : Outcome W G → Prop
  | .inr (.ok (s, l)) => left s l
  | _ => True

theorem Outcome.All.parts_leaves {allowed : Fault → Prop} {inv : Server W G → Prop}
    {left : Server W G → Leave → Prop} {o : Outcome W G} (h : o.All allowed inv)
    (hleft : o.Leaves left) : o.Parts allowed inv left := by
  match o, h, hleft with
  | .inl s, h, _ => exact h
  | .inr (.ok (s, l)), _, hleft => exact hleft
  | .inr (.error f), h, _ => exact h

/-- The last request is a `GET` under `/adm/`. -/
def AfterAdm (s : Server W G) : Prop :=
  ∃ uri version, s.st.httpArgs = [cstr "GET", uri, version] ∧ isAdm uri = true

/-- The loop is left for a next request only after a `GET` under `/adm/`. -/
def ToNext (s : Server W G) (l : Leave) : Prop :=
  l.err = 0 → s.st.state = .waitHttpMethod → AfterAdm s

theorem toNext_of_err {l : Leave} (herr : l.err ≠ 0) : ToNext s l := fun h => absurd h herr

theorem toNext_of_state {l : Leave} (hstate : s.st.state ≠ .waitHttpMethod) : ToNext s l :=
  fun _ h => absurd h hstate

theorem leaves_goOn {h : Handled W G} {left : Server W G → Leave → Prop}
    (hleft : h.err ≠ 0 → left h.s ⟨h.err, false, h.headers⟩) : (goOn h).Leaves left := by
  rw [goOn]
  split
  · trivial
  · next herr => exact hleft herr

theorem goOn_toNext (h : Handled W G) : (goOn h).Leaves ToNext :=
  leaves_goOn fun herr => toNext_of_err herr

theorem getSourcetable_toNext : (getSourcetable c s).Leaves ToNext := by
  rw [getSourcetable]
  dsimp only
  split
  · exact goOn_toNext _
  · exact toNext_of_state SessionState.noConfusion

theorem getMountpoint_toNext {mountpoint : CString} :
    (getMountpoint c s mountpoint).Leaves ToNext := by
  rw [getMountpoint]
  dsimp only
  generalize (if (c.stackFindMountpoint s.w mountpoint).all (!·.virtual) = true then _
    else _ : Bool × W) = r
  generalize (if r.1 = true then _ else _ : Server W G) = s₁
  split
  · split
    · trivial
    · split
      · exact getSourcetable_toNext
      · exact toNext_of_err (by decide)
  · split
    · trivial
    · split
      · exact toNext_of_state SessionState.noConfusion
      · exact toNext_of_err (by decide)

theorem filesrv_toNext {uri : CString} {h : Handled W G}
    (hfile : filesrv c config s uri = some h) : (leave h.s h.err).Leaves ToNext := by
  have hfail (s : Server W G) (err : ℕ) (herr : err ≠ 0) :
      (leave s err).Leaves ToNext := toNext_of_err herr
  rw [filesrv] at hfile
  split at hfile
  · contradiction
  · split at hfile
    · obtain rfl := Option.some.inj hfile
      exact hfail s 404 (by decide)
    · dsimp only at hfile
      split at hfile <;> obtain rfl := Option.some.inj hfile
      · exact hfail _ 404 (by decide)
      · exact hfail _ 503 (by decide)
      · exact hfail _ 503 (by decide)
      · exact toNext_of_state SessionState.noConfusion

theorem getRequest_toNext {uri version : CString}
    (hargs : s.st.httpArgs = [cstr "GET", uri, version]) :
    (getRequest c config s uri).Leaves ToNext := by
  rw [getRequest]
  split
  · exact toNext_of_err (by decide)
  · split
    · next hadm =>
      have hanswered := admsrv_answered c config s (cstr "GET") (cstr "/adm") (uri.drop 4)
      split
      · trivial
      · next h hok =>
        rw [hok] at hanswered
        have hsame : h.s.st.httpArgs = s.st.httpArgs := Answered.httpArgs hanswered
        exact fun _ _ => ⟨uri, version, hsame.trans hargs, hadm⟩
    · split
      · next hfile => exact filesrv_toNext hfile
      · dsimp only
        split
        · exact getSourcetable_toNext
        · split
          · exact toNext_of_err (by decide)
          · exact getMountpoint_toNext

theorem sourceRequest_toNext {mountpoint password : CString} {user : Option CString} :
    (sourceRequest c config s mountpoint user password).Leaves ToNext := by
  rw [sourceRequest]
  dsimp only
  split
  · exact toNext_of_err (by decide)
  · split
    · exact toNext_of_err (by decide)
    · split
      · exact toNext_of_err (by decide)
      · split
        · exact toNext_of_err (by decide)
        · split
          · exact toNext_of_err (by decide)
          · trivial

theorem postRequest_toNext {uri : CString} : (postRequest c config s uri).Leaves ToNext := by
  rw [postRequest]
  split
  · split
    · split
      · trivial
      · exact goOn_toNext _
    · trivial
  · split
    · exact toNext_of_err (by decide)
    · dsimp only
      split
      · exact toNext_of_err (by decide)
      · split
        · exact sourceRequest_toNext
        · exact toNext_of_err (by decide)

/-- **A request is answered**, and the loop goes on to the next one unless it is a `GET` under
`/adm/`. -/
theorem dispatch_toNext : (dispatch c config s).Leaves ToNext := by
  rw [dispatch]
  split
  · next method uri version hargs =>
    split
    · next hget => exact getRequest_toNext (hget ▸ hargs)
    · split
      · exact postRequest_toNext
      · split
        · rw [oldSourceRequest]
          split
          · exact toNext_of_err (by decide)
          · exact sourceRequest_toNext
        · exact toNext_of_err (by decide)
  · exact toNext_of_err (by decide)

theorem endContent_toNext : (endContent c config s).Leaves ToNext := by
  rw [endContent]
  split
  · split
    · split
      · trivial
      · exact goOn_toNext _
    · trivial
  · trivial

/-- A request line that is there is overlooked only after a `GET` under `/adm/`. -/
def OverlooksAfterAdm (s : Server W G) : Prop :=
  s.st.state = .waitHttpMethod → s.st.inFilter = false →
    (evbufferReadlnCrlf s.st.rawInput).isSome → AfterAdm s

/-- The loop is left with an error, or overlooks no request line but after such a request. -/
def Attends (s : Server W G) (l : Leave) : Prop := l.err = 0 → OverlooksAfterAdm s

theorem ToNext.attends {l : Leave} (h : ToNext s l) : Attends s l :=
  fun herr hstate _ _ => h herr hstate

theorem Outcome.Leaves.attends {o : Outcome W G} (h : o.Leaves ToNext) : o.Leaves Attends := by
  match o, h with
  | .inl s, _ => trivial
  | .inr (.ok (s, l)), h => exact ToNext.attends h
  | .inr (.error f), _ => trivial

/-- With no line to read, none is overlooked. -/
theorem attends_of_readln {l : Leave} {buf : List Byte}
    (hraw : s.st.inFilter = false → s.st.input = .rawInput) (hbuf : s.st.inputBuf = some buf)
    (hread : evbufferReadlnCrlf buf = none) : Attends s l := by
  intro _ _ hfilter hline
  rw [NtripState.inputBuf, hraw hfilter] at hbuf
  rw [Option.some.inj hbuf, hread] at hline
  contradiction

theorem readLine_attends {tooLong : ℕ} (htooLong : tooLong ≠ 0)
    {k : Server W G → List Byte → Outcome W G}
    (hraw : s.st.inFilter = false → s.st.input = .rawInput)
    (hk : ∀ line rest, (k (s.takeLine line rest) line).Leaves ToNext) :
    (readLine config s tooLong k).Leaves Attends := by
  rw [readLine]
  split
  · trivial
  · next buf hbuf =>
    split
    · next hread => exact attends_of_readln hraw hbuf hread
    · next line rest _ =>
      dsimp only
      split
      · exact fun herr => absurd herr htooLong
      · exact (hk line rest).attends

theorem headerLine_toNext (line : List Byte) : (headerLine c config s line).Leaves ToNext := by
  rw [headerLine]
  split
  · rw [endHeaders]
    split
    · trivial
    · exact dispatch_toNext
  · split
    · exact toNext_of_err (by decide)
    · split
      · trivial
      · exact goOn_toNext _

theorem methodLine_toNext (line : List Byte) : (methodLine s line).Leaves ToNext := by
  rw [methodLine]
  dsimp only
  split
  · exact toNext_of_err (by decide)
  · trivial

/-- **A round** overlooks no request line but after a `GET` under `/adm/`. -/
theorem Unchunked.round_attends (h : Unchunked s.st.toSession) :
    (Ntripsrv.round c config s).Leaves Attends := by
  have hraw (hfilter : s.st.inFilter = false) : s.st.input = .rawInput := (h.out hfilter).2.2
  rw [Ntripsrv.round]
  split
  · next hstate => exact (toNext_of_state (by rw [hstate]; decide)).attends
  · split
    · trivial
    · next buf hbuf =>
      split
      · next hnil => exact attends_of_readln hraw hbuf (hnil ▸ rfl)
      · split
        · exact readLine_attends (by decide) hraw fun line _ => methodLine_toNext line
        · exact readLine_attends (by decide) hraw fun line _ => headerLine_toNext line
        · next hstate =>
          rw [clientInput]
          split
          · exact (toNext_of_state (by rw [hstate]; decide)).attends
          · dsimp only
            split <;> trivial
        · next hstate =>
          rw [clientContent]
          split
          · exact (toNext_of_state (by rw [hstate]; decide)).attends
          · dsimp only
            split
            · exact endContent_toNext.attends
            · trivial
        · next hstate =>
          rw [streamSource]
          split
          · exact (toNext_of_err (by decide)).attends
          · split
            · trivial
            · refine (toNext_of_state ?_).attends
              dsimp only
              rw [NtripState.setInput]
              split <;> rw [hstate] <;> decide
        · exact (toNext_of_err (by decide)).attends
        · exact (toNext_of_err (by decide)).attends

/-- If more is needed before a request can be read, the filter is still in. -/
theorem Unchunked.filterInput_attends (h : Unchunked s.st.toSession) : okAll (fun _ => True)
    (fun r => r.2 = false → OverlooksAfterAdm r.1) (Ntripsrv.filterInput s) := by
  have hstays : ¬ decide ((0 : ℤ) ≤ 0) = false := by decide
  rw [Ntripsrv.filterInput, ntripFilterRunInput]
  by_cases hfilter : s.st.inFilter = true
  · rw [if_pos hfilter]
    cases hdecode : ntripChunkDecode s.st.toSession with
    | none => trivial
    | some r =>
      obtain ⟨answer, session⟩ := r
      cases answer with
      | bevOk => exact fun hleft => absurd hleft hstays
      | bevNeedMore =>
        intro _ _ hout
        have hin : session.inFilter = true := (h.decoded hfilter hdecode).2 rfl
        exact absurd hin (by rw [show session.inFilter = false from hout]; decide)
      | bevError =>
        intro _ hstate
        have hend := state_ntripDecrefEnd session
        exact absurd hend (by
          rw [show (ntripDecrefEnd session).state = .waitHttpMethod from hstate]; decide)
  · rw [if_neg hfilter]
    exact fun hleft => absurd hleft hstays

theorem Attends.afterLoop {l : Leave} (h : Attends s l) : OverlooksAfterAdm (afterLoop s l) := by
  obtain ⟨herr, -, heq⟩ | ⟨-, -, heq⟩ | ⟨-, heq⟩ := afterLoop_cases s l
  · rw [heq]
    exact h herr
  · intro hstate
    rw [heq, state_decrefEnd] at hstate
    contradiction
  · intro hstate
    rw [heq] at hstate
    contradiction

/-- **A read** overlooks no request line but after a `GET` under `/adm/`. -/
theorem Unchunked.step_attends (h : Unchunked s.st.toSession) (bytes : List Byte) :
    okAll (fun _ => True) OverlooksAfterAdm (s.step c (.read config bytes)) := by
  rw [Server.step]
  split
  · next hend =>
    intro hstate
    rw [hend] at hstate
    contradiction
  · have hreceive : Unchunked (s.receive bytes).st.toSession := ⟨h.out, h.last⟩
    have hround (s : Server W G) (hs : Unchunked s.st.toSession) (_ : True) :
        (Ntripsrv.round c config s).Parts (fun _ => True) (fun s => Unchunked s.st.toSession)
          Attends := hs.round.parts_leaves hs.round_attends
    refine ntripsrvReadcb_parts (fun s => Unchunked s.st.toSession) ?_ hround
      (fun _ _ => trivial) (fun s l hl => hl.afterLoop) fun s _ _ => ?_
    · have hfilter : okAll (fun _ => True) (fun r => Unchunked r.1.st.toSession)
          (Ntripsrv.filterInput (s.receive bytes)) := hreceive.filterInput
      have hleft := hreceive.filterInput_attends
      cases hok : Ntripsrv.filterInput (s.receive bytes) with
      | error f => trivial
      | ok r =>
        rw [hok] at hfilter hleft
        exact ⟨hleft, fun _ => hfilter⟩
    · exact Attends.afterLoop fun herr => absurd herr (by decide)

/-! ### Runs -/

/-- The requests that a read comes to are handled as on new connections of the same peer to the same
caster: the first one, and those behind it, where the headers before them leak nothing. -/
structure Independent (c : Caster W G) (config : Config) (peer : Peer) (s : Server W G)
    (bytes : List Byte) : Prop where
  first : Between s → s.st.rawInput ++ bytes ≠ [] →
    s.step c (.read config bytes) =
      (s.fresh peer).step c (.read config (s.st.rawInput ++ bytes))
  behind : ∀ before s' after, visited c config (s.receive bytes) = before ++ s' :: after →
    (∀ s'' ∈ before, LeaksNothing c config s'') → s.st.state ≠ .ntripEnd → Between s' →
    s'.st.rawInput ≠ [] →
    s.step c (.read config bytes) = (s'.fresh peer).step c (.read config s'.st.rawInput)
  left : ∀ s', s.step c (.read config bytes) = .ok s' → OverlooksAfterAdm s'

theorem Kept.independent (h : Kept peer s) (config : Config) (bytes : List Byte) :
    Independent c config peer s bytes where
  first hs hraw := h.step_fresh hs hraw
  behind before s' after hvisited hbefore hend hs' hraw := by
    have hkept := (h.receive bytes).visited hvisited hbefore
    have hmem : s' ∈ Ntripsrv.visited c config (s.receive bytes) :=
      hvisited ▸ List.mem_append_right before List.mem_cons_self
    rw [Server.step, if_neg hend, ntripsrvReadcb_of_visited hmem]
    exact hkept.loop_fresh hs' hraw
  left s' hstep := by
    have hattends : okAll _ OverlooksAfterAdm (s.step c (.read config bytes)) :=
      h.unchunked.step_attends bytes
    rwa [hstep] at hattends

/-- **Requests are independent.** On a connection none of whose headers has left something behind, a
request is handled just as on a new connection of the same peer to the same caster, whether it comes
first in a read or behind other requests. None is left to a later read but behind a `GET` under
`/adm/`. -/
theorem reachable_fresh {w : W} {ipcount : HashTable ℤ}
    (hreach : Transition.Reachable (· = Server.accepted peer w ipcount) (KeepsClean c)
      (Server.stepOk c) s) (config : Config) (bytes : List Byte) :
    Independent c config peer s bytes := by
  have hkept : Kept peer s := by
    refine hreach.invariant ?_ fun s l s' hs hl hstep => ?_
    · rintro _ rfl
      exact kept_accepted peer w ipcount
    · have h := hs.step hl
      rw [Server.stepOk] at hstep
      cases hok : s.step c l with
      | ok s₁ =>
        rw [hok] at h hstep
        obtain rfl := Option.some.inj hstep
        exact h
      | error f =>
        rw [hok] at hstep
        contradiction
  exact hkept.independent config bytes

/-! ### Two runs -/

instance (s : Server W G) : Decidable (LeaksNothing c config s) :=
  inferInstanceAs (Decidable (∀ header ∈ nextHeader config s, leaks c config s.st.peer header =
    false))

instance (s : Server W G) : (l : Label W) → Decidable (KeepsClean c s l)
  | .read config bytes => inferInstanceAs (Decidable
      (∀ s' ∈ visited c config (s.receive bytes), LeaksNothing c config s'))
  | .job _ => inferInstanceAs (Decidable True)
  | .written => inferInstanceAs (Decidable True)
  | .hangup => inferInstanceAs (Decidable True)
  | .caster _ => inferInstanceAs (Decidable True)

/-- A request for the table of sources. -/
def tableRequest : List Byte := cstr "GET / HTTP/1.1\r\nConnection: keep-alive\r\n\r\n"

/-- The same, by a client of the second version of the protocol. -/
def newTableRequest : List Byte :=
  cstr "GET / HTTP/1.1\r\nConnection: keep-alive\r\nNtrip-Version: Ntrip/2.0\r\n\r\n"

theorem reachable_fresh_tableRequest : ∃ s : Server Unit Unit,
    Transition.Reachable (· = smallServer) (KeepsClean (smallCaster false))
      (Server.stepOk (smallCaster false)) s ∧ Between s ∧ s.st.rawInput = [] ∧
    Independent (smallCaster false) smallConfig smallPeer s newTableRequest := by
  have hobserve : (List.foldlM (fun (s : Server Unit Unit) l =>
      if KeepsClean (smallCaster false) s l then s.stepOk (smallCaster false) l else none)
      smallServer [.read smallConfig tableRequest]).map
      (fun s => (s.st.state, s.st.inFilter, s.st.rawInput, s.jobs.length)) =
      some (.waitHttpMethod, false, [], 0) := by
    decide +kernel
  obtain ⟨s, hrun, hs⟩ := Option.map_eq_some_iff.mp hobserve
  simp only [Prod.mk.injEq, List.length_eq_zero_iff] at hs
  have hreach : Transition.Reachable (· = smallServer) (KeepsClean (smallCaster false))
      (Server.stepOk (smallCaster false)) s := Transition.reachable_of_foldlM (.refl rfl) hrun
  exact ⟨s, hreach, ⟨hs.1, hs.2.1, hs.2.2.2⟩, hs.2.2.1,
    reachable_fresh hreach smallConfig newTableRequest⟩

/-- The type of the last reply. -/
def lastType (s : Except Fault (Server Unit Unit)) : Option CString :=
  match s with
  | .ok s =>
    match s.log.getLast? with
    | some (.reply (.server _ _ _ (some m) _ _)) => m.mimeType
    | _ => none
  | .error _ => none

/-- **The version leaks.** After a client of the second version, the same connection answers a plain
client in the second version. -/
theorem version_leaks : ∃ s : Server Unit Unit,
    Transition.Reachable (· = smallServer) (fun _ _ => True)
      (Server.stepOk (smallCaster false)) s ∧ Between s ∧ s.st.rawInput = [] ∧
    lastType (s.step (smallCaster false) (.read smallConfig tableRequest)) =
      some (cstr "gnss/sourcetable") ∧
    lastType ((s.fresh smallPeer).step (smallCaster false) (.read smallConfig tableRequest)) =
      some (cstr "text/plain") := by
  have hobserve : (List.foldlM (fun (s : Server Unit Unit) l =>
      if True then s.stepOk (smallCaster false) l else none)
      smallServer [.read smallConfig newTableRequest]).map
      (fun s => ((s.st.state, s.st.inFilter, s.st.rawInput, s.jobs.length),
        lastType (s.step (smallCaster false) (.read smallConfig tableRequest)),
        lastType ((s.fresh smallPeer).step (smallCaster false) (.read smallConfig tableRequest)))) =
      some ((.waitHttpMethod, false, [], 0), some (cstr "gnss/sourcetable"),
        some (cstr "text/plain")) := by
    decide +kernel
  obtain ⟨s, hrun, hs⟩ := Option.map_eq_some_iff.mp hobserve
  simp only [Prod.mk.injEq, List.length_eq_zero_iff] at hs
  exact ⟨s, Transition.reachable_of_foldlM (.refl rfl) hrun,
    ⟨hs.1.1, hs.1.2.1, hs.1.2.2.2⟩, hs.1.2.2.1, hs.2.1, hs.2.2⟩

end Ntripsrv

end ChilopodCaster
