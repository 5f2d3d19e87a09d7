import ChilopodCaster.HttpText
import ChilopodCaster.ServerFrame

/-!
# Requests that arrive in pieces

A request is handled when its last line, or the last byte of its content, has arrived. What becomes
of it is `serve`, which takes the request whole. A stream of requests is served one by one, and so
it is however it is cut into reads, which may end inside a line or reach over several requests.

A `GET` under `/adm/` is not among them, even if the connection is kept: the loop is left after it,
and what stands behind it in the same read is looked at with the next one. Neither is a request that
announces chunks.

The lines must be shorter than the limit of the configuration: a line of that very length is read
when it arrives whole, but refused when its end of line is cut in two.

## Main definitions

* `serve` — what becomes of a request that arrives whole, if the loop then waits for the next one
* `readAll` — the callback, called with one piece after the other

## Main results

* `readsTo_request` — a request is read line by line
* `readAll_stream` — a stream of requests, in pieces
-/

namespace ChilopodCaster

namespace Ntripsrv

open ChunkDecode Pieces

variable {W G : Type} {c : Caster W G} {config : Config} {s s' : Server W G}

/-! ### The loop, round by round -/

theorem loop_of_leave {l : Leave} (h : round c config s = .inr (.ok (s', l))) :
    loop c config s = .ok (afterLoop s' l) := by
  rw [loop, Loop.run, h]

/-- A session that reads its raw input, and has read all of it. -/
structure Waiting (st : Session) : Prop where
  input : st.input = .rawInput
  inFilter : st.inFilter = false
  chunkState : st.chunkState = .chunkNone
  rawInput : st.rawInput = []

/-- The callback of a read. -/
def feed (c : Caster W G) (config : Config) (s : Server W G) (bytes : List Byte) :
    Except Fault (Server W G) :=
  s.step c (.read config bytes)

/-- The callback, called with one piece after the other. -/
def readAll (c : Caster W G) (config : Config) (s : Server W G) (reads : List (List Byte)) :
    Except Fault (Server W G) :=
  reads.foldlM (feed c config) s

theorem receive_nil (s : Server W G) : s.receive [] = s := by
  rw [Server.receive, List.append_nil]

theorem receive_receive (s : Server W G) (x y : List Byte) :
    (s.receive x).receive y = s.receive (x ++ y) := by
  rw [Server.receive, Server.receive, Server.receive, List.append_assoc]

theorem inputBuf_receive (h : Waiting s.st.toSession) (bytes : List Byte) :
    (s.receive bytes).st.inputBuf = some bytes := by
  have hinput : (s.receive bytes).st.input = .rawInput := h.input
  rw [NtripState.inputBuf, hinput]
  show some (s.st.rawInput ++ bytes) = some bytes
  rw [h.rawInput, List.nil_append]

/-- The callback is the loop, on what has been received. -/
theorem feed_eq (h : Waiting s.st.toSession) (hend : s.st.state ≠ .ntripEnd) (x y : List Byte) :
    feed c config (s.receive x) y = loop c config (s.receive (x ++ y)) := by
  have hin : ¬ (s.receive (x ++ y)).st.inFilter = true := by
    show ¬ s.st.inFilter = true
    rw [h.inFilter]
    decide
  have hfilter : filterInput (s.receive (x ++ y)) = .ok (s.receive (x ++ y), true) := by
    rw [filterInput, ntripFilterRunInput, if_neg hin]
    rfl
  have hchunk : (s.receive (x ++ y)).st.chunkState = .chunkNone := h.chunkState
  have hover : ¬ bodyOver (s.receive (x ++ y)).st = true := by
    rw [bodyOver, decide_eq_true_iff, hchunk]
    exact fun h => ChunkState.noConfusion h.1
  have hend' : (s.receive x).st.state ≠ .ntripEnd := hend
  rw [feed, Server.step, if_neg hend', receive_receive, ntripsrvReadcb, hfilter]
  exact if_neg hover

/-- With nothing to do, the callback leaves the connection as it is. -/
theorem loop_of_wait (h : round c config s = leave s 0) (hstate : s.st.state ≠ .forceClose) :
    loop c config s = .ok s := by
  rw [loop_of_leave h, afterLoop]
  simp [hstate]

/-! ### Lines -/

/-- The bytes of a line are counted. -/
def Server.took (s : Server W G) (line : List Byte) : Server W G :=
  { s with st := { s.st with receivedBytes := s.st.receivedBytes + line.length + 2 } }

theorem setInput_of_rawInput {st : NtripState G} (h : st.input = .rawInput) (rest : List Byte) :
    st.setInput rest = { st with rawInput := rest } := by
  rw [NtripState.setInput, h]

theorem takeLine_receive (h : Waiting s.st.toSession) (line buf rest : List Byte) :
    (s.receive buf).takeLine line rest = (s.took line).receive rest := by
  have hraw : s.st.rawInput ++ rest = rest := by rw [h.rawInput, List.nil_append]
  have hinput : (s.receive buf).st.input = .rawInput := h.input
  rw [Server.takeLine, setInput_of_rawInput hinput]
  show _ = ({ s with st := { s.st with
    rawInput := s.st.rawInput ++ rest
    receivedBytes := s.st.receivedBytes + line.length + 2 } } : Server W G)
  rw [hraw]
  rfl

/-- A part of a header line is waited for. -/
theorem loop_headerPart (h : Waiting s.st.toSession) (hstate : s.st.state = .waitHttpHeader)
    {p : List Byte} (hp : LF ∉ p) (hshort : p.length ≤ config.httpHeaderMaxSize) :
    loop c config (s.receive p) = .ok (s.receive p) := by
  refine loop_of_wait ?_ (by rw [receive_state, hstate]; decide)
  rw [round, receive_state, hstate, if_neg (by decide), inputBuf_receive h]
  dsimp only
  by_cases hnil : p = []
  · rw [if_pos hnil]
  · rw [if_neg hnil, readLine, inputBuf_receive h]
    dsimp only
    rw [evbufferReadlnCrlf_eq_none_iff.mpr hp, if_neg (by omega)]

/-- A header line is taken off the input. -/
theorem round_headerLine (h : Waiting s.st.toSession) (hstate : s.st.state = .waitHttpHeader)
    {line : List Byte} (hline : LF ∉ line) (hshort : line.length ≤ config.httpHeaderMaxSize)
    (rest : List Byte) :
    round c config (s.receive (line ++ crlf ++ rest)) =
      headerLine c config ((s.took line).receive rest) line := by
  rw [round, receive_state, hstate, if_neg (by decide), inputBuf_receive h]
  dsimp only
  rw [if_neg (by simp), readLine, inputBuf_receive h]
  dsimp only
  rw [readlnCrlf_line hline]
  dsimp only
  rw [if_neg (by omega), takeLine_receive h]

theorem headerLine_receive (h : s.st.chunkState ≠ .chunkInit) (line rest : List Byte) :
    headerLine c config (s.receive rest) line = (headerLine c config s line).receive rest := by
  have hchunk : (s.receive rest).st.chunkState ≠ .chunkInit := h
  rw [headerLine, headerLine]
  split
  · rw [endHeaders_eq h, endHeaders_eq hchunk, prepared_receive, dispatch_receive]
  · split
    · rfl
    · next key value _ =>
      have hadd : (s.receive rest).addHeader config key value =
        (s.addHeader config key value).receive rest := rfl
      rw [hadd, handleHeader_receive]
      cases handleHeader c config (s.addHeader config key value) key value with
      | error f => rfl
      | ok r => exact (receive_goOn rest ⟨r.1, r.2, []⟩).symm

theorem feed_waiting (h : Waiting s.st.toSession) (hend : s.st.state ≠ .ntripEnd) (y : List Byte) :
    feed c config s y = loop c config (s.receive y) := by
  have hfeed : feed c config (s.receive []) y = loop c config (s.receive ([] ++ y)) :=
    feed_eq h hend [] y
  rwa [receive_nil, List.nil_append] at hfeed

/-- **A header line is read at once.** -/
theorem reads_headerLine (h : Waiting s.st.toSession) (hstate : s.st.state = .waitHttpHeader)
    {line : List Byte} (hline : LF ∉ line) (hshort : line.length < config.httpHeaderMaxSize)
    (hnext : headerLine c config (s.took line) line = .inl s') (h' : Waiting s'.st.toSession)
    (hend' : s'.st.state ≠ .ntripEnd) :
    Reads (feed c config) .ok [line ++ crlf] fun k p => if k = 0 then s.receive p else s' where
  ne_nil u hu := by
    rw [List.mem_singleton.mp hu]
    simp
  part k hk p y q hq heq := by
    obtain rfl : k = 0 := Nat.lt_one_iff.mp hk
    rw [← List.append_assoc] at heq
    obtain ⟨hmem, hlen⟩ := not_mem_of_part hline hq heq
    show feed c config (s.receive p) y = _
    rw [feed_eq h (by rw [hstate]; decide)]
    exact loop_headerPart h hstate hmem (by omega)
  unit k hk p y rest _ heq := by
    obtain rfl : k = 0 := Nat.lt_one_iff.mp hk
    have hchunk : (s.took line).st.chunkState ≠ .chunkInit := by
      rw [show (s.took line).st.chunkState = s.st.chunkState from rfl, h.chunkState]
      decide
    have hround : round c config (s.receive (line ++ crlf ++ rest)) = .inl (s'.receive rest) := by
      rw [round_headerLine h hstate hline (by omega), headerLine_receive hchunk, hnext]
      rfl
    have htext : p ++ (y ++ rest) = line ++ crlf ++ rest := by
      rw [← List.append_assoc, heq]
      rfl
    show feed c config (s.receive p) (y ++ rest) = feed c config s' rest
    rw [feed_eq h (by rw [hstate]; decide), htext, loop_of_next hround, feed_waiting h' hend']

/-! ### The request line -/

theorem waiting_clearRequest (h : Waiting s.st.toSession) :
    Waiting s.clearRequest.st.toSession :=
  ⟨h.input, h.inFilter, rfl, h.rawInput⟩

/-- A round that waits for a request line. -/
theorem round_waitHttpMethod (h : Waiting s.st.toSession) (hstate : s.st.state = .waitHttpMethod)
    {x : List Byte} (hx : x ≠ []) :
    round c config (s.receive x) = readLine config (s.clearRequest.receive x) 400 methodLine := by
  rw [round, receive_state, hstate, if_neg (by decide), inputBuf_receive h]
  dsimp only
  rw [if_neg hx]
  rfl

theorem clearRequest_clearRequest (s : Server W G) :
    s.clearRequest.clearRequest = s.clearRequest := rfl

theorem loop_clearRequest (h : Waiting s.st.toSession) (hstate : s.st.state = .waitHttpMethod)
    {x : List Byte} (hx : x ≠ []) :
    loop c config (s.clearRequest.receive x) = loop c config (s.receive x) := by
  refine loop_congr ?_
  rw [round_waitHttpMethod h hstate hx, round_waitHttpMethod (waiting_clearRequest h) hstate hx,
    clearRequest_clearRequest]

/-- A connection that has a part of a request line. The first call that finds something clears the
request before. -/
def Server.atMethod (s : Server W G) (p : List Byte) : Server W G :=
  if p = [] then s else s.clearRequest.receive p

/-- A request line has been read. -/
def Server.begun (s : Server W G) (r : RequestText) : Server W G :=
  let s := s.clearRequest.took r.requestLine
  { s with st := { s.st with
    httpArgs := [r.method, r.uri, r.version]
    nHttpArgs := 3
    state := .waitHttpHeader
    receivedKeepalive := false } }

theorem feed_atMethod (h : Waiting s.st.toSession) (hstate : s.st.state = .waitHttpMethod)
    (p y : List Byte) : feed c config (s.atMethod p) y = loop c config (s.receive (p ++ y)) := by
  have hend : s.st.state ≠ .ntripEnd := by rw [hstate]; decide
  rw [Server.atMethod]
  split
  · next hp => rw [feed_waiting h hend, hp, List.nil_append]
  · next hp =>
    rw [feed_eq (waiting_clearRequest h) hend, loop_clearRequest h hstate (by simp [hp])]

/-- A part of a request line is waited for. -/
theorem loop_methodPart (h : Waiting s.st.toSession) (hstate : s.st.state = .waitHttpMethod)
    {p : List Byte} (hp : LF ∉ p) (hshort : p.length ≤ config.httpHeaderMaxSize) :
    loop c config (s.receive p) = .ok (s.atMethod p) := by
  have hclose : s.st.state ≠ .forceClose := by rw [hstate]; decide
  rw [Server.atMethod]
  split
  · next hnil =>
    rw [hnil, receive_nil]
    refine loop_of_wait ?_ hclose
    have hbuf := inputBuf_receive h []
    rw [receive_nil] at hbuf
    rw [round, hstate, if_neg (by decide), hbuf]
    rfl
  · next hnil =>
    rw [← loop_clearRequest h hstate hnil]
    refine loop_of_wait ?_ hclose
    rw [round_waitHttpMethod (waiting_clearRequest h) hstate hnil, clearRequest_clearRequest,
      readLine, inputBuf_receive (waiting_clearRequest h)]
    dsimp only
    rw [evbufferReadlnCrlf_eq_none_iff.mpr hp, if_neg (by omega)]

theorem round_requestLine (h : Waiting s.st.toSession) (hstate : s.st.state = .waitHttpMethod)
    {r : RequestText} (hr : r.WellFormed config.httpHeaderMaxSize) (rest : List Byte) :
    round c config (s.receive (r.requestLine ++ crlf ++ rest)) =
      .inl ((s.begun r).receive rest) := by
  have hshort := hr.short r.requestLine List.mem_cons_self
  have hargs : splitArgs (toCString r.requestLine) = [r.method, r.uri, r.version] :=
    splitArgs_requestLine hr.method hr.uri hr.version
  rw [round_waitHttpMethod h hstate (by simp), readLine,
    inputBuf_receive (waiting_clearRequest h)]
  dsimp only
  rw [readlnCrlf_line (RequestText.lf_not_mem_requestLine hr)]
  dsimp only
  rw [if_neg (by omega), takeLine_receive (waiting_clearRequest h), methodLine, hargs]
  rfl

/-- **The request line is read at once.** -/
theorem reads_requestLine (h : Waiting s.st.toSession) (hstate : s.st.state = .waitHttpMethod)
    {r : RequestText} (hr : r.WellFormed config.httpHeaderMaxSize) :
    Reads (feed c config) .ok [r.requestLine ++ crlf] fun k p =>
      if k = 0 then s.atMethod p else s.begun r where
  ne_nil u hu := by
    rw [List.mem_singleton.mp hu]
    simp
  part k hk p y q hq heq := by
    obtain rfl : k = 0 := Nat.lt_one_iff.mp hk
    rw [← List.append_assoc] at heq
    obtain ⟨hmem, hlen⟩ := not_mem_of_part (RequestText.lf_not_mem_requestLine hr) hq heq
    have hshort := hr.short r.requestLine List.mem_cons_self
    show feed c config (s.atMethod p) y = _
    rw [feed_atMethod h hstate]
    exact loop_methodPart h hstate hmem (by omega)
  unit k hk p y rest _ heq := by
    obtain rfl : k = 0 := Nat.lt_one_iff.mp hk
    have hbegun : Waiting (s.begun r).st.toSession := ⟨h.input, h.inFilter, rfl, h.rawInput⟩
    have htext : p ++ (y ++ rest) = r.requestLine ++ crlf ++ rest := by
      rw [← List.append_assoc, heq]
      rfl
    show feed c config (s.atMethod p) (y ++ rest) = feed c config (s.begun r) rest
    rw [feed_atMethod h hstate, htext, loop_of_next (round_requestLine h hstate hr rest),
      feed_waiting hbegun SessionState.noConfusion]

/-! ### The content -/

/-- Part of the content has been taken. -/
def Server.tookContent (s : Server W G) (p : List Byte) : Server W G :=
  { s with st := { s.st with
    content := some p
    receivedBytes := s.st.receivedBytes + p.length } }

theorem tookContent_nil (hcontent : s.st.content = some []) : s.tookContent [] = s := by
  rw [Server.tookContent, ← hcontent]
  rfl

theorem takeContent_receive (h : Waiting s.st.toSession) (p y rest : List Byte) :
    takeContent ((s.tookContent p).receive (y ++ rest)) (y ++ rest) y.length =
      (s.tookContent (p ++ y)).receive rest := by
  have hinput : ((s.tookContent p).receive (y ++ rest)).st.input = .rawInput := h.input
  have hraw : s.st.rawInput ++ rest = rest := by rw [h.rawInput, List.nil_append]
  have hlen : s.st.receivedBytes + p.length + y.length = s.st.receivedBytes + (p ++ y).length := by
    rw [List.length_append, Nat.add_assoc]
  rw [takeContent, setInput_of_rawInput hinput, List.drop_left, List.take_left]
  show ({ s with st := { s.st with
      rawInput := rest
      content := some (p ++ y)
      receivedBytes := s.st.receivedBytes + p.length + y.length } } : Server W G) =
    { s with st := { s.st with
      rawInput := s.st.rawInput ++ rest
      content := some (p ++ y)
      receivedBytes := s.st.receivedBytes + (p ++ y).length } }
  rw [hraw, hlen]

/-- A round that takes some of the content, or all of it. -/
theorem round_content (h : Waiting s.st.toSession) (hstate : s.st.state = .waitClientContent)
    {p y : List Byte} (hy : y ≠ []) (hle : p.length + y.length ≤ s.st.contentLength)
    (rest : List Byte) (hrest : rest = [] ∨ p.length + y.length = s.st.contentLength) :
    round c config ((s.tookContent p).receive (y ++ rest)) =
      if p.length + y.length = s.st.contentLength then
        endContent c config ((s.tookContent (p ++ y)).receive rest)
      else .inl ((s.tookContent (p ++ y)).receive rest) := by
  have htook : Waiting (s.tookContent p).st.toSession :=
    ⟨h.input, h.inFilter, h.chunkState, h.rawInput⟩
  have hstate' : ((s.tookContent p).receive (y ++ rest)).st.state = .waitClientContent := hstate
  have hdone : min (y ++ rest).length (((s.tookContent p).receive (y ++ rest)).st.contentLength -
      (((s.tookContent p).receive (y ++ rest)).st.content.getD []).length) = y.length := by
    show min (y ++ rest).length (s.st.contentLength - p.length) = y.length
    rw [List.length_append]
    rcases hrest with rfl | hrest
    · rw [List.length_nil]
      omega
    · omega
  have hpos := List.length_pos_iff.mpr hy
  rw [round, hstate', if_neg (by decide), inputBuf_receive htook]
  dsimp only
  rw [if_neg (by simp [hy]), clientContent]
  dsimp only
  rw [hdone, if_neg (by omega), takeContent_receive h, ← List.length_append]
  rfl

/-- **The content is read at once.** -/
theorem reads_content (h : Waiting s.st.toSession) (hstate : s.st.state = .waitClientContent)
    {content : List Byte} (hne : content ≠ [])
    (hlen : s.st.contentLength = content.length)
    (hnext : endContent c config (s.tookContent content) = .inl s') (h' : Waiting s'.st.toSession)
    (hend' : s'.st.state ≠ .ntripEnd) :
    Reads (feed c config) .ok [content] fun k p => if k = 0 then s.tookContent p else s' where
  ne_nil u hu := by
    rw [List.mem_singleton.mp hu]
    exact hne
  part k hk p y q hq heq := by
    obtain rfl : k = 0 := Nat.lt_one_iff.mp hk
    have hheld (p : List Byte) : Waiting (s.tookContent p).st.toSession :=
      ⟨h.input, h.inFilter, h.chunkState, h.rawInput⟩
    have hend : s.st.state ≠ .ntripEnd := by rw [hstate]; decide
    -- with nothing to read, the loop is left at once
    have hwait (p : List Byte) : loop c config (s.tookContent p) = .ok (s.tookContent p) := by
      have hbuf := inputBuf_receive (hheld p) []
      rw [receive_nil] at hbuf
      refine loop_of_wait ?_ (show s.st.state ≠ .forceClose by rw [hstate]; decide)
      rw [round, show (s.tookContent p).st.state = .waitClientContent from hstate,
        if_neg (by decide), hbuf]
      rfl
    have hlt : p.length + y.length < s.st.contentLength := by
      rw [hlen, show content = [content][0] from rfl, ← heq, List.length_append, List.length_append]
      have := List.length_pos_iff.mpr hq
      omega
    show feed c config (s.tookContent p) y = .ok (s.tookContent (p ++ y))
    rw [feed_waiting (hheld p) hend]
    by_cases hy : y = []
    · rw [hy, receive_nil, List.append_nil, hwait]
    · have hround : round c config ((s.tookContent p).receive (y ++ [])) = _ :=
        round_content h hstate hy (Nat.le_of_lt hlt) [] (.inl rfl)
      rw [if_neg (Nat.ne_of_lt hlt), List.append_nil, receive_nil] at hround
      rw [loop_of_next hround, hwait]
  unit k hk p y rest hy heq := by
    obtain rfl : k = 0 := Nat.lt_one_iff.mp hk
    have hheld : Waiting (s.tookContent p).st.toSession :=
      ⟨h.input, h.inFilter, h.chunkState, h.rawInput⟩
    have heq : p ++ y = content := heq
    have hwhole : p.length + y.length = s.st.contentLength := by
      rw [hlen, ← heq, List.length_append]
    have hround : round c config ((s.tookContent p).receive (y ++ rest)) = _ :=
      round_content h hstate hy (Nat.le_of_eq hwhole) rest (.inr hwhole)
    rw [if_pos hwhole, heq, endContent_receive, hnext, receive_inl] at hround
    show feed c config (s.tookContent p) (y ++ rest) = feed c config s' rest
    rw [feed_waiting hheld (show s.st.state ≠ .ntripEnd by rw [hstate]; decide),
      loop_of_next hround, feed_waiting h' hend']

/-! ### Whole requests -/

/-- A header, if it is taken and does not announce chunks. -/
def serveHeader (c : Caster W G) (config : Config) (s : Server W G) (header : CString × CString) :
    Option (Server W G) :=
  match handleHeader c config ((s.took (headerText header)).addHeader config header.1 header.2)
      header.1 header.2 with
  | .ok (s, 0) => if s.st.chunkState = .chunkNone then some s else none
  | _ => none

/-- The content, if the connection waits for it, or there is none and it waits for the next
request. -/
def serveContent (c : Caster W G) (config : Config) (s : Server W G) (content : List Byte) :
    Option (Server W G) :=
  if content = [] then if s.st.state = .waitHttpMethod then some s else none
  else if s.st.state = .waitClientContent ∧ s.st.contentLength = content.length then
    match endContent c config (s.tookContent content) with
    | .inl s => if s.st.state = .waitHttpMethod then some s else none
    | .inr _ => none
  else none

/-- A request that arrives whole and alone, if the loop then waits for the next one. After a `GET`
under `/adm/` the loop is left. -/
def serve (c : Caster W G) (config : Config) (s : Server W G) (r : RequestText) :
    Option (Server W G) :=
  (r.headers.foldlM (serveHeader c config) (s.begun r)).bind fun s =>
    match endHeaders c config (s.took []) with
    | .inl s => serveContent c config s r.content
    | .inr _ => none

/-- The connection waits for a request. -/
structure Idle (s : Server W G) : Prop where
  waiting : Waiting s.st.toSession
  state : s.st.state = .waitHttpMethod

/-- Nothing was done for a request. -/
structure Untouched (s s' : Server W G) : Prop where
  w : s'.w = s.w
  jobs : s'.jobs = s.jobs
  log : s'.log = s.log

theorem Untouched.trans {s'' : Server W G} (h : Untouched s s') (h' : Untouched s' s'') :
    Untouched s s'' :=
  ⟨h'.w.trans h.w, h'.jobs.trans h.jobs, h'.log.trans h.log⟩

/-- The connection waits for a header line. -/
structure AtHeader (s : Server W G) : Prop where
  waiting : Waiting s.st.toSession
  state : s.st.state = .waitHttpHeader

theorem Waiting.answered (h : Waiting s.st.toSession) (hs : Answered s s') :
    Waiting s'.st.toSession := by
  rw [hs.toSession]
  exact ⟨h.input, h.inFilter, h.chunkState, h.rawInput⟩

theorem AtHeader.handleHeader (h : AtHeader s) {key value : CString} {err : ℕ}
    (hok : handleHeader c config s key value = .ok (s', err))
    (hchunk : s'.st.chunkState = .chunkNone) : AtHeader s' ∧ Untouched s s' := by
  have hwaiting := h.waiting
  rw [Ntripsrv.handleHeader] at hok
  dsimp only at hok
  split at hok
  · rw [handleForwardedHeader] at hok
    split at hok
    · obtain ⟨rfl, -⟩ := Prod.mk.inj (Except.ok.inj hok)
      exact ⟨h, rfl, rfl, rfl⟩
    · split at hok
      · obtain ⟨rfl, -⟩ := Prod.mk.inj (Except.ok.inj hok)
        exact ⟨h, rfl, rfl, rfl⟩
      · split at hok
        · contradiction
        · obtain ⟨rfl, -⟩ := Prod.mk.inj (Except.ok.inj hok)
          exact ⟨⟨⟨hwaiting.input, hwaiting.inFilter, hwaiting.chunkState, hwaiting.rawInput⟩,
            h.state⟩, rfl, rfl, rfl⟩
  · obtain ⟨rfl, -⟩ := Prod.mk.inj (Except.ok.inj hok)
    have hset := setHeader_set c config s.st value (headerKind config key)
    exact ⟨⟨⟨hset.input.trans hwaiting.input, hset.inFilter.trans hwaiting.inFilter, hchunk,
      hset.rawInput.trans hwaiting.rawInput⟩, hset.state.trans h.state⟩, rfl, rfl, rfl⟩

variable {inv : Server W G → Prop}

/-- **A header** is read. -/
theorem readsTo_header {r : RequestText} (hr : r.WellFormed config.httpHeaderMaxSize)
    {header : CString × CString} (hheader : header ∈ r.headers) (h : AtHeader s)
    (hinv : ∀ s', Untouched s s' → inv s') (hserve : serveHeader c config s header = some s') :
    ReadsTo (feed c config) .ok inv s [headerText header ++ crlf] s' ∧ AtHeader s' ∧
      Untouched s s' := by
  have hkey := hr.key header hheader
  have hparse : parseHeader (toCString (headerText header)) = some header :=
    parseHeader_headerText ⟨fun hc => (hkey _ hc).1 rfl, fun hc => (hkey _ hc).2.1 rfl⟩
      (hr.value header hheader)
  have hshort := hr.short _ (List.mem_cons_of_mem _ (List.mem_map_of_mem hheader))
  have hlen : (headerText header).length ≠ 0 := by simp [headerText]
  rw [serveHeader] at hserve
  split at hserve
  · next s₁ hok =>
    split at hserve
    · next hchunk =>
      obtain rfl := Option.some.inj hserve
      have hadd : AtHeader ((s.took (headerText header)).addHeader config header.1 header.2) :=
        ⟨⟨h.waiting.input, h.waiting.inFilter, h.waiting.chunkState, h.waiting.rawInput⟩, h.state⟩
      obtain ⟨h', hsame⟩ := hadd.handleHeader hok hchunk
      have hline := RequestText.lf_not_mem_headerText hr hheader
      have hnext : headerLine c config (s.took (headerText header)) (headerText header) =
          .inl s₁ := by
        rw [headerLine, if_neg hlen, hparse]
        dsimp only
        rw [hok]
        rfl
      have hread := reads_headerLine h.waiting h.state hline hshort hnext h'.waiting
        (by rw [h'.state]; decide)
      exact ⟨.single hread (receive_nil s) rfl fun p _ _ _ => hinv _ ⟨rfl, rfl, rfl⟩, h', hsame.w,
        hsame.jobs, hsame.log⟩
    · contradiction
  · contradiction

theorem cutQuery_content (st : NtripState G) : (cutQuery st).content = st.content := by
  unfold cutQuery
  split
  · split <;> rfl
  · rfl

theorem prepared_waiting (h : Waiting s.st.toSession) :
    Waiting (prepared config s).st.toSession := by
  rw [prepared, Server.record]
  dsimp only
  rw [cutQuery_toSession]
  exact h

/-- The content that is still to be read is empty. -/
theorem prepared_content (h : s.st.contentLength ≠ 0) :
    (prepared config s).st.content = some [] := by
  rw [prepared, Server.record]
  dsimp only
  rw [cutQuery_content]
  exact if_pos h

theorem prepared_contentLength : (prepared config s).st.contentLength = s.st.contentLength := by
  rw [prepared, Server.record]
  dsimp only
  unfold cutQuery
  split
  · split <;> rfl
  · rfl

/-- **The empty line and the content.** -/
theorem readsTo_content {content : List Byte} {s₁ : Server W G} (h : AtHeader s)
    (hend : endHeaders c config (s.took []) = .inl s₁)
    (hshort : 0 < config.httpHeaderMaxSize) (hhead : ∀ p, inv (s.receive p))
    (hbody : ∀ p, inv (s₁.tookContent p))
    (hserve : serveContent c config s₁ content = some s') :
    ReadsTo (feed c config) .ok inv s ([[] ++ crlf] ++ if content = [] then [] else [content]) s' ∧
      Idle s' := by
  have htook : Waiting (s.took []).st.toSession :=
    ⟨h.waiting.input, h.waiting.inFilter, h.waiting.chunkState, h.waiting.rawInput⟩
  have hchunk : (s.took []).st.chunkState ≠ .chunkInit := by
    rw [htook.chunkState]
    decide
  have hdispatch : dispatch c config (prepared config (s.took [])) = .inl s₁ := by
    rw [← endHeaders_eq hchunk, hend]
  have hanswered : Answered (prepared config (s.took [])) s₁ := dispatch_answered.next hdispatch
  have hwaiting : Waiting s₁.st.toSession := (prepared_waiting htook).answered hanswered
  have hline (hstate : s₁.st.state ≠ .ntripEnd) :
      ReadsTo (feed c config) .ok inv s [[] ++ crlf] s₁ := by
    have hnext : headerLine c config (s.took []) [] = .inl s₁ := by
      rw [headerLine, if_pos List.length_nil, hend]
    exact .single (reads_headerLine h.waiting h.state List.not_mem_nil hshort hnext hwaiting hstate)
      (receive_nil s) rfl fun p _ _ _ => hhead p
  rw [serveContent] at hserve
  by_cases hempty : content = []
  · rw [if_pos hempty] at hserve
    split at hserve
    · next hstate =>
      obtain rfl := Option.some.inj hserve
      rw [if_pos hempty, List.append_nil]
      exact ⟨hline (by rw [hstate]; decide), hwaiting, hstate⟩
    · contradiction
  · rw [if_neg hempty] at hserve
    split at hserve
    · next hcontent =>
      obtain ⟨hstate, hlen⟩ := hcontent
      split at hserve
      · next s₂ hnext =>
        split at hserve
        · next hstate' =>
          obtain rfl := Option.some.inj hserve
          have hheld : Waiting (s₁.tookContent content).st.toSession :=
            ⟨hwaiting.input, hwaiting.inFilter, hwaiting.chunkState, hwaiting.rawInput⟩
          have hidle : Idle s₂ := ⟨hheld.answered (endContent_answered.next hnext), hstate'⟩
          have hnone : s₁.st.content = some [] := by
            rw [hanswered]
            show (prepared config (s.took [])).st.content = some []
            refine prepared_content ?_
            have hsame : s₁.st.contentLength = (prepared config (s.took [])).st.contentLength := by
              rw [hanswered]
            rw [prepared_contentLength] at hsame
            rw [← hsame, hlen]
            exact fun h => hempty (List.length_eq_zero_iff.mp h)
          refine ⟨(hline (by rw [hstate]; decide)).append ?_, hidle⟩
          rw [if_neg hempty]
          exact .single (reads_content hwaiting hstate hempty hlen hnext hidle.waiting
            (by rw [hstate']; decide)) (tookContent_nil hnone) rfl fun p _ _ _ => hbody p
        · contradiction
      · contradiction
    · contradiction

/-- **A request is read** line by line, and then its content. Until it is whole, nothing was done
for it but what the end of its headers has led to. -/
theorem readsTo_request {r : RequestText} (hr : r.WellFormed config.httpHeaderMaxSize)
    (h : Idle s) (hhead : ∀ s', Untouched s s' → inv s')
    (hbody : ∀ s₁ s₂ p, r.headers.foldlM (serveHeader c config) (s.begun r) = some s₁ →
      endHeaders c config (s₁.took []) = .inl s₂ → inv (s₂.tookContent p))
    (hserve : serve c config s r = some s') :
    ReadsTo (feed c config) .ok inv s [r.text] s' ∧ Idle s' := by
  obtain ⟨s₁, hheaders, hserve⟩ := Option.bind_eq_some_iff.mp hserve
  have hbegun : AtHeader (s.begun r) :=
    ⟨⟨h.waiting.input, h.waiting.inFilter, rfl, h.waiting.rawInput⟩, rfl⟩
  have hline : ReadsTo (feed c config) .ok inv s [r.requestLine ++ crlf] (s.begun r) := by
    refine .single (reads_requestLine h.waiting h.state hr) rfl rfl fun p _ _ _ => hhead _ ?_
    show Untouched s (s.atMethod p)
    rw [Server.atMethod]
    split <;> exact ⟨rfl, rfl, rfl⟩
  have hstep (s₁ : Server W G) (header : CString × CString) (s₂ : Server W G)
      (hheader : header ∈ r.headers) (hs₁ : AtHeader s₁ ∧ Untouched s s₁)
      (hserve : serveHeader c config s₁ header = some s₂) :
      ReadsTo (feed c config) .ok inv s₁ [headerText header ++ crlf] s₂ ∧
        AtHeader s₂ ∧ Untouched s s₂ := by
    obtain ⟨hread, h₂, hsame⟩ := readsTo_header hr hheader hs₁.1
      (fun s' hs' => hhead s' (hs₁.2.trans hs')) hserve
    exact ⟨hread, h₂, hs₁.2.trans hsame⟩
  obtain ⟨hread, h₁, hsame⟩ := ReadsTo.foldlM hstep ⟨hbegun, rfl, rfl, rfl⟩ hheaders
  split at hserve
  · next s₂ hend =>
    have hshort := hr.short r.requestLine List.mem_cons_self
    obtain ⟨hcontent, hidle⟩ := readsTo_content h₁ hend (by omega)
      (fun p => hhead _ (hsame.trans ⟨rfl, rfl, rfl⟩))
      (fun p => hbody s₁ s₂ p hheaders hend) hserve
    have hunits : r.units = [r.requestLine ++ crlf] ++
        (r.headers.map (fun header => headerText header ++ crlf) ++
          ([[] ++ crlf] ++ if r.content = [] then [] else [r.content])) := by
      simp [RequestText.units, RequestText.lines, writeLines]
    have hall := hline.append (hread.append hcontent)
    rw [← hunits] at hall
    exact ⟨hall.merge (RequestText.text_ne_nil r), hidle⟩
  · contradiction

/-- A stream of requests is read one by one. -/
theorem readsTo_stream {rs : List RequestText} (h : Idle s)
    (hrs : ∀ r ∈ rs, r.WellFormed config.httpHeaderMaxSize)
    (hserve : rs.foldlM (serve c config) s = some s') :
    ReadsTo (feed c config) .ok (fun _ => True) s (rs.map RequestText.text) s' ∧ Idle s' :=
  ReadsTo.foldlM (fun _ r _ hr hs => readsTo_request (hrs r hr) hs (fun _ _ => trivial)
    fun _ _ _ _ _ => trivial) h hserve

/-- Nothing arrives. -/
theorem feed_idle (h : Idle s) : feed c config s [] = .ok s := by
  have hpart : loop c config (s.receive []) = .ok (s.atMethod []) :=
    loop_methodPart h.waiting h.state List.not_mem_nil (Nat.zero_le _)
  rw [feed_waiting h.waiting (by rw [h.state]; decide), hpart]
  rfl

/-- **A stream of requests, in pieces.** If the requests, each of them whole and none a `GET` under
`/adm/`, are served one after the other, then so they are when they arrive in pieces, however the
stream is cut; and any beginning of the stream is read as if it arrived at once. -/
theorem readAll_stream {rs : List RequestText} (h : Idle s)
    (hrs : ∀ r ∈ rs, r.WellFormed config.httpHeaderMaxSize)
    (hserve : rs.foldlM (serve c config) s = some s') (reads : List (List Byte)) :
    (reads.flatten = (rs.map RequestText.text).flatten → readAll c config s reads = .ok s') ∧
      ∀ rest, reads.flatten ++ rest = (rs.map RequestText.text).flatten →
        readAll c config s reads = s.step c (.read config reads.flatten) := by
  obtain ⟨hread, hidle⟩ := readsTo_stream h hrs hserve
  exact hread.pieces_eq (feed_idle hidle)

/-- A request for the table of sources, with content that nobody reads. -/
def smallRequest : RequestText :=
  ⟨cstr "GET", cstr "/", cstr "HTTP/1.1",
    [(cstr "Connection", cstr "keep-alive"), (cstr "Content-Length", cstr "2")], cstr "ab"⟩

/-- Two of them, cut inside a header and inside the content. -/
theorem readAll_stream_smallRequest : ∃ s' : Server Unit Unit,
    readAll (smallCaster false) smallConfig smallServer
      [smallRequest.text.take 40, smallRequest.text.drop 40 ++ smallRequest.text.take 61,
        smallRequest.text.drop 61] = .ok s' := by
  have hserve : ([smallRequest, smallRequest].foldlM (serve (smallCaster false) smallConfig)
      smallServer).isSome = true := by
    decide
  obtain ⟨s', hs'⟩ := Option.isSome_iff_exists.mp hserve
  have hwf : ∀ r ∈ [smallRequest, smallRequest], r.WellFormed smallConfig.httpHeaderMaxSize := by
    decide
  have hidle : Idle smallServer := ⟨⟨rfl, rfl, rfl, rfl⟩, rfl⟩
  exact ⟨s', (readAll_stream hidle hwf hs' _).1 (by decide)⟩

end Ntripsrv

end ChilopodCaster
