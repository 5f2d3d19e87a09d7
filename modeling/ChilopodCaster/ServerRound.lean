import ChilopodCaster.ServerAnswer

/-!
# Rounds of the request loop

A round of `ntripsrv_readcb` reads a line or a part of a content, and may answer a request. The
rules of this module are those of the invariants of a connection: what has to be shown of one round,
of one call of the callback, and of one step.

## Main definitions

* `nextHeader` — the header that a round is about to read
* `Worked`, `Cleared` — what a round changes
* `visited` — the states in which the rounds of a callback start

## Main results

* `held_of_round`, `exists_run` — the loop ends
* `round_all`, `ntripsrvReadcb_all`, `read_all` — the rules of a round, of the callback, and of a
  read
-/

namespace ChilopodCaster

namespace Ntripsrv

open ChunkDecode

variable {W G : Type} {c : Caster W G} {config : Config} {s s' s'' : Server W G}
  {allowed allowed' : Fault → Prop} {P Q : Server W G → Prop}

/-! ### Rounds -/

theorem endHeaders_all (h : okAll allowed (fun s' => (dispatch c config s').All allowed P)
    (prepare config s)) : (endHeaders c config s).All allowed P := by
  rw [endHeaders]
  split
  · next hf => rwa [hf] at h
  · next hok => rwa [hok] at h

/-- A header line that is not empty. -/
theorem headerLine_all {line : List Byte}
    (hempty : line.length = 0 → okAll allowed (fun s' => (dispatch c config s').All allowed P)
      (prepare config s))
    (hbad : P s)
    (hheader : ∀ key value, parseHeader (toCString line) = some (key, value) →
      okAll allowed (fun r => P r.1)
        (handleHeader c config (s.addHeader config key value) key value)) :
    (headerLine c config s line).All allowed P := by
  rw [headerLine]
  split
  · next h => exact endHeaders_all (hempty h)
  · split
    · exact hbad
    · next key value hparse =>
      have h := hheader key value hparse
      split
      · next hf => rwa [hf] at h
      · next hok =>
        rw [hok] at h
        exact all_goOn.mpr h

/-- A round that reads a line. -/
theorem readLine_all {tooLong : ℕ} {k : Server W G → List Byte → Outcome W G} {buf : List Byte}
    (hbuf : s.st.inputBuf = some buf) (hnone : P s)
    (hlong : ∀ line rest, evbufferReadlnCrlf buf = some (line, rest) → P (s.takeLine line rest))
    (hline : ∀ line rest, evbufferReadlnCrlf buf = some (line, rest) →
      (k (s.takeLine line rest) line).All allowed P) :
    (readLine config s tooLong k).All allowed P := by
  rw [readLine, hbuf]
  dsimp only
  split
  · exact hnone
  · next line rest hread =>
    split
    · exact hlong line rest hread
    · exact hline line rest hread

theorem readLine_ends {P : Server W G → ℕ → Prop} {tooLong : ℕ}
    {k : Server W G → List Byte → Outcome W G} (hnone : ∀ err, err = 0 ∨ err = tooLong → P s err)
    (hlong : ∀ line rest, P (s.takeLine line rest) tooLong)
    (hline : ∀ buf line rest, s.st.inputBuf = some buf →
      evbufferReadlnCrlf buf = some (line, rest) → (k (s.takeLine line rest) line).Ends P) :
    (readLine config s tooLong k).Ends P := by
  rw [readLine]
  split
  · trivial
  · next buf hbuf =>
    split
    · refine hnone _ ?_
      dsimp only
      split
      · exact .inr rfl
      · exact .inl rfl
    · next line rest hread =>
      dsimp only
      split
      · exact hlong line rest
      · exact hline buf line rest hbuf hread

/-! ### Every round reads something -/

theorem held_eq (s : Server W G) : held s = buffered s.st.toSession := rfl

theorem cutQuery_toSession (st : NtripState G) : (cutQuery st).toSession = st.toSession := by
  unfold cutQuery
  split
  · split <;> rfl
  · rfl

theorem prepare_held (config : Config) (s : Server W G) :
    okAll (· = .endlessLoop) (fun s' => held s' ≤ held s) (prepare config s) := by
  rw [prepare]
  dsimp only
  split
  · exact rfl
  · next session hsession =>
    rw [okAll_ok, held_eq, held_eq, Server.record]
    dsimp only
    rw [cutQuery_toSession]
    dsimp only
    split at hsession
    · obtain ⟨r, hr, rfl⟩ := Option.map_eq_some_iff.mp hsession
      exact ntripChunkDecodeInit_buffered hr
    · obtain rfl := Option.some.inj hsession
      exact Nat.le_refl _

theorem Answered.held (h : Answered s s') : held s' = held s := by
  rw [held_eq, held_eq, h.toSession]
  rfl

/-- What a header sets, apart from the address of the client. -/
structure HeaderSet (st st' : NtripState G) : Prop where
  rawInput : st'.rawInput = st.rawInput
  chunkBuf : st'.chunkBuf = st.chunkBuf
  input : st'.input = st.input
  inFilter : st'.inFilter = st.inFilter
  state : st'.state = st.state
  peer : st'.peer = st.peer
  connectionKeepalive : st'.connectionKeepalive = st.connectionKeepalive
  httpArgs : st'.httpArgs = st.httpArgs
  content : st'.content = st.content
  sourceVirtual : st'.sourceVirtual = st.sourceVirtual
  headers : st'.headers = st.headers

theorem setHeader_set (c : Caster W G) (config : Config) (st : NtripState G) (value : CString)
    (kind : HeaderKind) : HeaderSet st (setHeader c config st value kind).1 := by
  have hrefl : HeaderSet st st := ⟨rfl, rfl, rfl, rfl, rfl, rfl, rfl, rfl, rfl, rfl, rfl⟩
  cases kind with
  | transferEncoding => rw [setHeader]; split <;> constructor <;> rfl
  | connection => rw [setHeader]; split <;> constructor <;> rfl
  | contentLength =>
    rw [setHeader]
    split
    · split <;> constructor <;> rfl
    · exact hrefl
  | contentType => constructor <;> rfl
  | ntripVersion => rw [setHeader]; split <;> constructor <;> rfl
  | agent => rw [setHeader]; split <;> constructor <;> rfl
  | authorization => rw [setHeader]; split <;> constructor <;> rfl
  | ntripGga => rw [setHeader]; split <;> constructor <;> rfl
  | host => exact hrefl
  | forwarded => exact hrefl
  | other => exact hrefl

/-- A header changes nothing in the buffers. -/
theorem handleHeader_held {key value : CString} :
    okAll (fun _ => True) (fun r => held r.1 = held s) (handleHeader c config s key value) := by
  rw [handleHeader]
  dsimp only
  split
  · rw [handleForwardedHeader]
    split
    · exact rfl
    · split
      · exact rfl
      · split
        · trivial
        · exact rfl
  · have hset := setHeader_set c config s.st value (headerKind config key)
    rw [okAll_ok, held, held, hset.rawInput, hset.chunkBuf]

theorem methodLine_held {line : List Byte} :
    (methodLine s line).All (fun _ => True) (fun s' => held s' = held s) := by
  rw [methodLine]
  dsimp only
  split <;> exact rfl

theorem headerLine_held {line : List Byte} :
    (headerLine c config s line).All (fun _ => True) (fun s' => held s' ≤ held s) := by
  refine headerLine_all (fun _ => ?_) (Nat.le_refl _) (fun key value _ => ?_)
  · refine (prepare_held config s).imp (fun _ _ => trivial) fun s' hs' => ?_
    exact (dispatch_answered.imp (fun _ _ => trivial) fun s'' hs'' => hs''.held ▸ hs')
  · exact handleHeader_held.mono fun r hr => Nat.le_of_eq hr

theorem held_setInput_lt {buf rest : List Byte} (hbuf : s.st.inputBuf = some buf)
    (hlen : rest.length < buf.length) : held { s with st := s.st.setInput rest } < held s := by
  rw [NtripState.inputBuf] at hbuf
  cases hinput : s.st.input with
  | rawInput =>
    rw [hinput] at hbuf
    obtain rfl := Option.some.inj hbuf
    simp only [held, NtripState.setInput, hinput]
    omega
  | chunkBuf =>
    rw [hinput] at hbuf
    simp only [held, NtripState.setInput, hinput, hbuf, Option.getD_some]
    omega

theorem held_takeLine {buf line rest : List Byte} (hbuf : s.st.inputBuf = some buf)
    (hread : evbufferReadlnCrlf buf = some (line, rest)) : held (s.takeLine line rest) < held s :=
  held_setInput_lt hbuf (length_of_readlnCrlf hread)

theorem readLine_next {tooLong : ℕ} {k : Server W G → List Byte → Outcome W G}
    (h : readLine config s tooLong k = .inl s') : ∃ buf line rest, s.st.inputBuf = some buf ∧
      evbufferReadlnCrlf buf = some (line, rest) ∧ k (s.takeLine line rest) line = .inl s' := by
  rw [readLine] at h
  split at h
  · contradiction
  · next buf hbuf =>
    split at h
    · contradiction
    · next line rest hread =>
      split at h
      · contradiction
      · exact ⟨buf, line, rest, hbuf, hread, h⟩

theorem Outcome.All.next {o : Outcome W G} (h : o.All allowed P) (ho : o = .inl s') : P s' := by
  subst ho
  exact h

/-- The header that a round is about to read. -/
def nextHeader (config : Config) (s : Server W G) : Option Header :=
  if s.st.state = .waitHttpHeader then do
    let (line, _) ← s.st.inputBuf.bind evbufferReadlnCrlf
    let (key, value) ← parseHeader (toCString line)
    return ⟨headerKind config key, key, value⟩
  else none

theorem nextHeader_eq {buf line rest : List Byte} {key value : CString}
    (hstate : s.st.state = .waitHttpHeader) (hbuf : s.st.inputBuf = some buf)
    (hread : evbufferReadlnCrlf buf = some (line, rest))
    (hparse : parseHeader (toCString line) = some (key, value)) :
    nextHeader config s = some ⟨headerKind config key, key, value⟩ := by
  rw [nextHeader, if_pos hstate, hbuf, Option.bind_some, hread]
  simp [hparse]

theorem held_clearRequest_le (s : Server W G) : held s.clearRequest ≤ held s := by
  simp [held, Server.clearRequest, NtripState.clearRequest]

/-- **A round that is not the last one reads something.** -/
theorem held_of_round (h : round c config s = .inl s') : held s' < held s := by
  rw [round] at h
  split at h
  · contradiction
  · split at h
    · contradiction
    · next buf hbuf =>
      split at h
      · contradiction
      · split at h
        · obtain ⟨buf', line, rest, hbuf', hread, hk⟩ := readLine_next h
          have hline := methodLine_held.next hk
          have htake := held_takeLine hbuf' hread
          have hclear := held_clearRequest_le s
          omega
        · obtain ⟨buf', line, rest, hbuf', hread, hk⟩ := readLine_next h
          have hline := headerLine_held.next hk
          have htake := held_takeLine hbuf' hread
          omega
        · rw [clientInput] at h
          split at h
          · contradiction
          · next line rest hread =>
            have htake := held_takeLine hbuf hread
            dsimp only at h
            split at h <;> obtain rfl := Sum.inl.inj h <;> exact htake
        · rw [clientContent] at h
          split at h
          · contradiction
          · next hlen =>
            have htake : held (takeContent s buf
                (min buf.length (s.st.contentLength - (s.st.content.getD []).length))) < held s :=
              held_setInput_lt hbuf (by rw [List.length_drop]; omega)
            dsimp only at h
            split at h
            · exact (endContent_answered.next h).held ▸ htake
            · obtain rfl := Sum.inl.inj h
              exact htake
        · rw [streamSource] at h
          split at h
          · contradiction
          · split at h <;> contradiction
        · contradiction
        · contradiction

/-- The loop ends. -/
theorem exists_run (c : Caster W G) (config : Config) (s : Server W G) :
    ∃ b, Loop.run (round c config) (held s + 1) s = some b := by
  have hround (s : Server W G) (_ : True) :
      Loop.Round (round c config) (fun _ => True) held (fun _ => True) s := by
    rw [Loop.Round]
    cases hround : round c config s with
    | inl s' => exact ⟨trivial, held_of_round hround⟩
    | inr b => trivial
  obtain ⟨b, hb, -⟩ := Loop.run_total (fun _ => True) held hround (held s + 1) s trivial
    (Nat.lt_succ_self _)
  exact ⟨b, hb⟩

theorem loop_of_next (h : round c config s = .inl s') : loop c config s = loop c config s' := by
  obtain ⟨b, hb⟩ := exists_run c config s'
  have hrun : Loop.run (round c config) (held s + 1) s = some b := by
    rw [Loop.run, h]
    exact Loop.run_mono hb (held_of_round h)
  rw [loop, loop, hrun, hb]

theorem loop_congr (h : round c config s = round c config s') :
    loop c config s = loop c config s' := by
  cases hround : round c config s with
  | inl s₁ => rw [loop_of_next hround, loop_of_next (h.symm.trans hround)]
  | inr b => rw [loop, loop, Loop.run, Loop.run, ← h, hround]

/-- Wherever a round starts, what is left to do is the loop from there. -/
theorem loop_of_mem_trace {n : ℕ} (h : s' ∈ Loop.trace (round c config) n s) :
    loop c config s = loop c config s' := by
  induction n generalizing s with
  | zero => contradiction
  | succ n ih =>
    rw [Loop.trace] at h
    rcases List.mem_cons.mp h with rfl | h
    · rfl
    · cases hround : round c config s with
      | inl s₁ =>
        rw [hround] at h
        rw [loop_of_next hround, ih h]
      | inr b =>
        rw [hround] at h
        contradiction

/-! ### What a round changes -/

/-- The connection `s'` is `s` after some work that read no request line and no header: the session
is still counted as it was, and has the credentials and the headers it had. -/
def Worked (s s' : Server W G) : Prop :=
  s' = { s with
    st := { s.st with
      toSession := s'.st.toSession
      content := s'.st.content
      lastPos := s'.st.lastPos
      clientVersion := s'.st.clientVersion
      connectionKeepalive := s'.st.connectionKeepalive
      sourceVirtual := s'.st.sourceVirtual
      mountpoint := s'.st.mountpoint
      httpArgs := s'.st.httpArgs
      queryString := s'.st.queryString }
    w := s'.w
    jobs := s'.jobs
    log := s'.log }

theorem Worked.refl (s : Server W G) : Worked s s := rfl

theorem Worked.trans (h : Worked s s') (h' : Worked s' s'') : Worked s s'' := by
  rw [Worked] at h h' ⊢
  rw [h', h]

theorem Answered.worked (h : Answered s s') : Worked s s' := by
  rw [Worked]
  rw [Answered] at h
  rw [h]

theorem worked_setInput (s : Server W G) (rest : List Byte) :
    Worked s { s with st := s.st.setInput rest } := by
  rw [Worked, NtripState.setInput]
  cases s.st.input <;> rfl

theorem worked_takeLine (s : Server W G) (line rest : List Byte) :
    Worked s (s.takeLine line rest) :=
  (worked_setInput s rest).trans rfl

theorem worked_cutQuery (s : Server W G) (st : NtripState G) (h : Worked s { s with st := st }) :
    Worked s { s with st := cutQuery st } := by
  refine h.trans ?_
  unfold cutQuery
  split
  · split <;> rfl
  · rfl

theorem prepare_worked : okAll (fun _ => True) (Worked s) (prepare config s) := by
  rw [prepare]
  dsimp only
  split
  · trivial
  · refine (worked_cutQuery s _ ?_).trans rfl
    exact rfl

theorem endHeaders_worked : (endHeaders c config s).All (fun _ => True) (Worked s) :=
  endHeaders_all (prepare_worked.mono fun _ hs' =>
    dispatch_answered.imp (fun _ _ => trivial) fun _ hs'' => hs'.trans hs''.worked)

/-- A round that reads no request line and no header. -/
theorem round_worked (hmethod : s.st.state ≠ .waitHttpMethod)
    (hheader : s.st.state ≠ .waitHttpHeader) :
    (round c config s).All (fun _ => True) (Worked s) := by
  rw [round]
  split
  · exact rfl
  · split
    · trivial
    · next buf hbuf =>
      split
      · exact rfl
      · split
        · next hstate => exact absurd hstate hmethod
        · next hstate => exact absurd hstate hheader
        · rw [clientInput]
          split
          · exact rfl
          · next line rest hread =>
            dsimp only
            split
            · exact (worked_takeLine s line rest).trans rfl
            · exact worked_takeLine s line rest
        · rw [clientContent]
          split
          · exact rfl
          · dsimp only
            have htake : Worked s (takeContent s buf
                (min buf.length (s.st.contentLength - (s.st.content.getD []).length))) :=
              (worked_setInput s _).trans rfl
            split
            · exact endContent_answered.imp (fun _ _ => trivial) fun _ h => htake.trans h.worked
            · exact htake
        · rw [streamSource]
          split
          · exact rfl
          · split
            · trivial
            · exact (worked_setInput s _).trans rfl
        · exact rfl
        · exact rfl

/-- The connection `s'` is `s` after some input was taken off. -/
def Took (s s' : Server W G) : Prop :=
  s' = { s with st := { s.st with
    rawInput := s'.st.rawInput
    chunkBuf := s'.st.chunkBuf
    receivedBytes := s'.st.receivedBytes
    content := s'.st.content } }

theorem took_setInput (s : Server W G) (rest : List Byte) (receivedBytes : ℕ) :
    Took s { s with st := { s.st.setInput rest with receivedBytes := receivedBytes } } := by
  rw [Took]
  unfold NtripState.setInput
  split <;> rfl

theorem took_takeLine (s : Server W G) (line rest : List Byte) : Took s (s.takeLine line rest) :=
  took_setInput s rest _

theorem took_takeContent (s : Server W G) (buf : List Byte) (len : ℕ) :
    Took s (takeContent s buf len) := by
  rw [Took, takeContent]
  unfold NtripState.setInput
  split <;> rfl

/-- The connection `s'` is `s` with a request cleared, and perhaps a new request line. -/
def Cleared (s s' : Server W G) : Prop :=
  s' = { s with
    st := { s.st.clearRequest with
      toSession := s'.st.toSession
      httpArgs := s'.st.httpArgs
      nHttpArgs := s'.st.nHttpArgs } }

theorem cleared_takeLine (s : Server W G) (line rest : List Byte) :
    Cleared s (s.clearRequest.takeLine line rest) := by
  rw [Cleared, Server.takeLine, NtripState.setInput]
  cases s.clearRequest.st.input <;> rfl

/-- **The rule of one round.** A property that work keeps has to be shown for a cleared request and
for a header line. -/
theorem round_all (hwork : ∀ s', Worked s s' → P s') (hclear : ∀ s', Cleared s s' → P s')
    (hheader : s.st.state = .waitHttpHeader → ∀ line rest key value,
      nextHeader config s = some ⟨headerKind config key, key, value⟩ →
      okAll (fun _ => True) (fun r => P r.1)
        (handleHeader c config ((s.takeLine line rest).addHeader config key value) key value)) :
    (round c config s).All (fun _ => True) P := by
  by_cases hm : s.st.state = .waitHttpMethod
  · rw [round]
    split
    · exact hwork s rfl
    · split
      · trivial
      · split
        · exact hwork s rfl
        · rw [hm]
          dsimp only
          cases hbuf : s.clearRequest.st.inputBuf with
          | none =>
            rw [readLine, hbuf]
            trivial
          | some buf =>
            refine readLine_all hbuf (hclear _ rfl) (fun line rest _ => hclear _
              (cleared_takeLine s line rest)) fun line rest _ => ?_
            have htake := cleared_takeLine s line rest
            rw [methodLine]
            dsimp only
            split
            · refine hclear _ ?_
              rw [Cleared] at htake ⊢
              rw [htake]
            · refine hclear _ ?_
              rw [Cleared] at htake ⊢
              rw [htake]
              rfl
  · by_cases hh : s.st.state = .waitHttpHeader
    · rw [round]
      split
      · exact hwork s rfl
      · split
        · trivial
        · next buf hbuf =>
          split
          · exact hwork s rfl
          · rw [hh]
            dsimp only
            have htake := worked_takeLine s
            refine readLine_all hbuf (hwork s rfl) (fun line rest _ => hwork _ (htake line rest))
              fun line rest hread => ?_
            rw [headerLine]
            split
            · exact endHeaders_worked.mono fun _ h => hwork _ ((htake line rest).trans h)
            · split
              · exact hwork _ (htake line rest)
              · next key value hparse =>
                have h := hheader hh line rest key value (nextHeader_eq hh hbuf hread hparse)
                split
                · trivial
                · next hok =>
                  rw [hok] at h
                  exact all_goOn.mpr h
    · exact (round_worked hm hh).mono hwork

/-! ### Callbacks -/

/-- **The input filter** only touches the buffers and the state. What its moves keep is kept, unless
the session has ended. -/
theorem filterInput_all (Inv : Session → Prop)
    (hmoved : ∀ st st', Inv st → Moved st st' → Inv st') (h : Inv s.st.toSession) :
    okAll (· = .endlessLoop) (fun r => ∃ session,
      r.1 = { s with st := { s.st with toSession := session } } ∧
      (r.2 = true → Inv session) ∧ (session.state = .ntripEnd ∨ Inv session)) (filterInput s) := by
  rw [filterInput, ntripFilterRunInput]
  split
  · exact rfl
  · next r res session hrun =>
    refine ⟨session, rfl, ?_⟩
    split at hrun
    · obtain ⟨⟨answer, st'⟩, hdecode, hr⟩ := Option.map_eq_some_iff.mp hrun
      have hinv := ntripChunkDecode_keeps Inv hmoved h hdecode
      cases answer with
      | bevOk =>
        obtain ⟨-, -, rfl⟩ := by simpa using hr
        exact ⟨fun _ => hinv, .inr hinv⟩
      | bevNeedMore =>
        obtain ⟨-, -, rfl⟩ := by simpa using hr
        exact ⟨fun _ => hinv, .inr hinv⟩
      | bevError =>
        obtain ⟨rfl, -, rfl⟩ := by simpa using hr
        refine ⟨fun h => ?_, .inl (state_ntripDecrefEnd st')⟩
        dsimp only at h
        contradiction
    · obtain ⟨-, -, rfl⟩ := by simpa using hrun
      exact ⟨fun _ => h, .inr h⟩

/-- The states of the connection in which the rounds of a callback start. -/
def visited (c : Caster W G) (config : Config) (s : Server W G) : List (Server W G) :=
  match filterInput s with
  | .ok (s, true) => if bodyOver s.st then [] else Loop.trace (round c config) (held s + 1) s
  | _ => []

theorem ntripsrvReadcb_of_visited (h : s' ∈ visited c config s) :
    ntripsrvReadcb c config s = loop c config s' := by
  rw [visited] at h
  rw [ntripsrvReadcb]
  cases hfilter : filterInput s with
  | error f =>
    rw [hfilter] at h
    contradiction
  | ok r =>
    obtain ⟨s₁, goesOn⟩ := r
    rw [hfilter] at h
    cases goesOn with
    | false => contradiction
    | true =>
      dsimp only at h ⊢
      split at h
      · contradiction
      · next hover =>
        rw [if_neg hover]
        exact loop_of_mem_trace h

/-- **The rule of the loop.** An invariant that is kept by the rounds, where they start in a state
that meets a condition, and what is then known when the loop is left. -/
theorem loop_parts {inv ok : Server W G → Prop} {left : Server W G → Leave → Prop}
    (hround : ∀ s, inv s → ok s → (round c config s).Parts allowed inv left) (hs : inv s)
    (htrace : ∀ s' ∈ Loop.trace (round c config) (held s + 1) s, ok s') :
    okAll allowed (fun s' => ∃ s₁ l, left s₁ l ∧ s' = afterLoop s₁ l) (loop c config s) := by
  obtain ⟨b, hb⟩ := exists_run c config s
  have hkeeps (s) (hs : inv s) (hok : ok s) : Loop.Keeps (round c config) inv
      (fun b => okAll allowed (fun r => left r.1 r.2) b) s := by
    have h := hround s hs hok
    rw [Loop.Keeps]
    cases hr : round c config s with
    | inl s' => rwa [hr] at h
    | inr b =>
      rw [hr] at h
      cases b with
      | ok r => exact h
      | error f => exact h
  have hpost := Loop.run_of_trace ok hkeeps hs htrace hb
  rw [loop, hb]
  cases b with
  | error f => exact hpost
  | ok r => exact ⟨r.1, r.2, hpost, rfl⟩

/-- **The rule of the callback.** -/
theorem ntripsrvReadcb_parts (inv : Server W G → Prop) {ok post : Server W G → Prop}
    {left : Server W G → Leave → Prop}
    (hfilter : okAll allowed (fun r => (r.2 = false → post r.1) ∧ (r.2 = true → inv r.1))
      (filterInput s))
    (hround : ∀ s, inv s → ok s → (round c config s).Parts allowed inv left)
    (hvisited : ∀ s' ∈ visited c config s, ok s')
    (hafter : ∀ s l, left s l → post (afterLoop s l))
    (hover : ∀ s, inv s → bodyOver s.st = true →
      post (afterLoop (s.setState .forceClose) ⟨1, false, []⟩)) :
    okAll allowed post (ntripsrvReadcb c config s) := by
  rw [ntripsrvReadcb]
  split
  · next f hf => rwa [hf] at hfilter
  · next s₁ hok =>
    rw [hok] at hfilter
    exact hfilter.1 rfl
  · next s₁ hok =>
    rw [hok] at hfilter
    have hinv : inv s₁ := hfilter.2 rfl
    rw [visited, hok] at hvisited
    dsimp only at hvisited
    split
    · next hbody => exact hover s₁ hinv hbody
    · next hbody =>
      rw [if_neg hbody] at hvisited
      refine (loop_parts hround hinv hvisited).mono ?_
      rintro _ ⟨s₂, l, hs₂, rfl⟩
      exact hafter s₂ l hs₂

/-- The same, for an invariant that also holds when the loop is left. -/
theorem ntripsrvReadcb_all (inv : Server W G → Prop) {ok post : Server W G → Prop}
    (hfilter : okAll allowed (fun r => (r.2 = false → post r.1) ∧ (r.2 = true → inv r.1))
      (filterInput s))
    (hround : ∀ s, inv s → ok s → (round c config s).All allowed inv)
    (hvisited : ∀ s' ∈ visited c config s, ok s')
    (hafter : ∀ s l, inv s → post (afterLoop s l))
    (hover : ∀ s, inv s → bodyOver s.st = true →
      post (afterLoop (s.setState .forceClose) ⟨1, false, []⟩)) :
    okAll allowed post (ntripsrvReadcb c config s) :=
  ntripsrvReadcb_parts inv hfilter (fun s hs hok => (hround s hs hok).parts) hvisited hafter hover

/-! ### Invariants of a connection -/

theorem worked_decrefEnd (s : Server W G) : Worked s (decrefEnd s) := rfl

theorem worked_receive (s : Server W G) (bytes : List Byte) : Worked s (s.receive bytes) := rfl

theorem afterLoop_worked (s : Server W G) (l : Leave) : Worked s (afterLoop s l) := by
  obtain ⟨s', hs', heq | heq⟩ := afterLoop_answered s l
  · exact heq ▸ hs'.worked
  · exact heq ▸ hs'.worked.trans (worked_decrefEnd s')

theorem worked_afterClose (s : Server W G) :
    Worked s (afterLoop (s.setState .forceClose) ⟨1, false, []⟩) :=
  (answered_setState s .forceClose).worked.trans (afterLoop_worked _ _)

theorem filterInput_worked : okAll (fun _ => True) (fun r => Worked s r.1) (filterInput s) := by
  rw [filterInput]
  split
  · trivial
  · exact rfl

theorem deferredOutput_worked {contentCb : ContentCb} {req : Request}
    (h : deferredOutput c s contentCb req = .ok s') : Worked s s' := by
  obtain ⟨-, w, rfl⟩ | ⟨-, -, -, w, rfl⟩ | ⟨-, answer, -, rfl⟩ := deferredOutput_cases h
  · exact rfl
  · exact rfl
  · exact rfl

/-- Anything but a read is work. -/
theorem step_worked {l : Label W} (hl : ∀ config bytes, l ≠ .read config bytes) :
    okAll (fun _ => True) (Worked s) (s.step c l) := by
  cases l with
  | read config bytes => exact absurd rfl (hl config bytes)
  | job i =>
    rw [Server.step]
    split
    · exact rfl
    · next job hjob =>
      cases hcall : deferredOutput c { s with jobs := s.jobs.eraseIdx i } job.contentCb job.req with
      | error f => trivial
      | ok s' =>
        have hjobs : Worked s { s with jobs := s.jobs.eraseIdx i } := rfl
        exact hjobs.trans (deferredOutput_worked hcall)
  | written =>
    rw [Server.step, okAll_ok]
    split
    · exact worked_decrefEnd s
    · exact rfl
  | hangup => exact worked_decrefEnd s
  | caster w => exact rfl

section Invariant

variable {inv : Server W G → Prop}

/-- The invariant holds whenever a round of a callback starts. -/
theorem visited_all (ok : Server W G → Prop)
    (hfilter : okAll (fun _ => True) (fun r => inv r.1) (filterInput s))
    (hround : ∀ s, inv s → ok s → (round c config s).All (fun _ => True) inv)
    (hvisited : ∀ s' ∈ visited c config s, ok s') : ∀ s' ∈ visited c config s, inv s' := by
  rw [visited] at hvisited ⊢
  split at hvisited
  · next s₁ hok =>
    rw [hok] at hfilter
    by_cases hover : bodyOver s₁.st = true
    · rw [if_pos hover]
      intro s' hs'
      contradiction
    · rw [if_neg hover] at hvisited ⊢
      exact Loop.trace_all (fun s s' hs hok hnext => (hround s hs hok).next hnext) hfilter hvisited
  · intro s' hs'
    contradiction

/-- **The rule of a read.** An invariant that is kept by work, and by the rounds that start in a
state that meets a condition. -/
theorem read_all (ok : Server W G → Prop) {bytes : List Byte}
    (hwork : ∀ s s', inv s → Worked s s' → inv s')
    (hround : ∀ s, inv s → ok s → (round c config s).All (fun _ => True) inv) (hs : inv s)
    (hvisited : ∀ s' ∈ visited c config (s.receive bytes), ok s') :
    okAll (fun _ => True) inv (s.step c (.read config bytes)) := by
  rw [Server.step]
  split
  · exact hs
  · have hreceive := hwork s _ hs (worked_receive s bytes)
    refine ntripsrvReadcb_all inv ?_ hround hvisited
      (fun s l hs => hwork s _ hs (afterLoop_worked s l))
      fun s hs _ => hwork s _ hs (worked_afterClose s)
    exact filterInput_worked.mono fun r hr =>
      ⟨fun _ => hwork _ _ hreceive hr, fun _ => hwork _ _ hreceive hr⟩

end Invariant

/-! ### Sessions that are past their requests -/

/-- A session that is past its requests: it streams, or is about to close. -/
structure Streaming (st : NtripState G) : Prop where
  connectionKeepalive : st.connectionKeepalive = false
  notMethod : st.state ≠ .waitHttpMethod
  notHeader : st.state ≠ .waitHttpHeader
  notContent : st.state ≠ .waitClientContent

theorem streaming_of_state {st : NtripState G} (h : st.connectionKeepalive = false)
    (hstate : st.state = .waitClientInput ∨ st.state = .waitStreamSource ∨ st.state = .waitClose) :
    Streaming st := by
  rcases hstate with hstate | hstate | hstate
  all_goals exact ⟨h, by rw [hstate]; decide, by rw [hstate]; decide, by rw [hstate]; decide⟩

/-- A session that streams, if it closes or stays as it is, is past its requests. -/
theorem Streaming.congr {st st' : NtripState G} (h : Streaming st)
    (hkeepalive : st'.connectionKeepalive = st.connectionKeepalive)
    (hstate : st'.state = st.state ∨ st'.state ∈
      [.waitClose, .forceClose, .ntripEnd]) : Streaming st' := by
  refine ⟨hkeepalive.trans h.connectionKeepalive, ?_, ?_, ?_⟩
  all_goals rcases hstate with hstate | hstate
  · rw [hstate]; exact h.notMethod
  · intro heq; rw [heq] at hstate; contradiction
  · rw [hstate]; exact h.notHeader
  · intro heq; rw [heq] at hstate; contradiction
  · rw [hstate]; exact h.notContent
  · intro heq; rw [heq] at hstate; contradiction

theorem Streaming.took (h : Streaming s.st) (hs' : Took s s') : Streaming s'.st := by
  rw [hs']
  exact h.congr rfl (.inl rfl)

theorem Streaming.close (h : Streaming s.st) : Streaming (s.setState .forceClose).st :=
  h.congr rfl (.inr (List.mem_cons_of_mem _ List.mem_cons_self))

theorem Streaming.decrefEnd (h : Streaming s.st) : Streaming (decrefEnd s).st :=
  h.congr rfl (.inr (by rw [state_decrefEnd]; decide))

theorem Streaming.afterLoop (h : Streaming s.st) (l : Leave) : Streaming (afterLoop s l).st := by
  obtain ⟨-, -, heq⟩ | ⟨-, -, heq⟩ | ⟨-, heq⟩ := afterLoop_cases s l
  · rw [heq]
    exact h
  · rw [heq]
    exact h.decrefEnd
  · rw [heq, replyError_eq]
    exact h.congr rfl (.inr List.mem_cons_self)

theorem Streaming.filterInput (h : Streaming s.st) :
    okAll (fun _ => True) (fun r => Streaming r.1.st) (filterInput s) := by
  have hmoved (st st' : Session) (hst : st.state = s.st.state ∨ st.state = .forceClose)
      (hst' : Moved st st') : st'.state = s.st.state ∨ st'.state = .forceClose := by
    cases hst' with
    | parsed rest chunkState chunkLen state hrest hstate =>
      rcases hstate with rfl | rfl
      · exact hst
      · exact .inr rfl
    | payload n chunkState chunkLen receivedBytes =>
      rw [Session.addInput]
      split <;> exact hst
    | ended rest hrest => exact hst
  refine (filterInput_all (fun st => st.state = s.st.state ∨ st.state = .forceClose) hmoved
    (.inl rfl)).imp (fun _ _ => trivial) ?_
  rintro ⟨s', goesOn⟩ ⟨session, rfl, -, hstate⟩
  refine h.congr rfl ?_
  rcases hstate with hstate | hstate | hstate
  · exact .inr (by simp [hstate])
  · exact .inl hstate
  · exact .inr (by simp [hstate])

theorem Streaming.deferredOutput (h : Streaming s.st) {contentCb : ContentCb} {req : Request}
    (hcall : deferredOutput c s contentCb req = .ok s') : Streaming s'.st := by
  obtain ⟨-, w, rfl⟩ | ⟨-, -, -, w, rfl⟩ | ⟨-, answer, -, rfl⟩ := deferredOutput_cases hcall
  · exact h
  · exact Streaming.decrefEnd (s := { s with w := w }) h
  · refine h.congr rfl (.inr ?_)
    rw [Server.setState, afterReply]
    simp [h.connectionKeepalive]

/-- **A session that is past its requests** reads no request again. -/
theorem Streaming.round (h : Streaming s.st) :
    (round c config s).All (fun _ => True) fun s' => Streaming s'.st := by
  rw [Ntripsrv.round]
  split
  · exact h
  · split
    · trivial
    · next buf _ =>
      split
      · exact h
      · split
        · next hstate => exact absurd hstate h.notMethod
        · next hstate => exact absurd hstate h.notHeader
        · rw [clientInput]
          split
          · exact h
          · next line rest _ =>
            dsimp only
            split
            · exact (h.took (took_takeLine s line rest)).congr rfl (.inl rfl)
            · exact h.took (took_takeLine s line rest)
        · next hstate => exact absurd hstate h.notContent
        · rw [streamSource]
          split
          · exact h.close
          · split
            · trivial
            · exact h.took (took_setInput s _ _)
        · exact h
        · exact h.close

end Ntripsrv

end ChilopodCaster
