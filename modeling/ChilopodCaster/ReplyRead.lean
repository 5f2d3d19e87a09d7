import ChilopodCaster.HttpText
import ChilopodCaster.ClientFrame

/-!
# Replies that arrive in pieces

A client session reads a reply line by line: the status, the headers, and for a sourcetable its
lines. What becomes of a line is `serveLine`, which takes the line whole. However the lines are cut
into reads, the session ends where it would if they arrived one by one.

## Main definitions

* `Client.serveLine` — what becomes of a line that arrives whole
* `Client.readAll` — the callback, called with one piece after the other

## Main results

* `Client.reads_line` — a line is read at once
* `Client.readAll_lines` — lines, in pieces
-/

namespace ChilopodCaster

namespace Ntripcli

open ChunkDecode Pieces

namespace Client

variable {F : Type} {s s' : Client F} {env : Env F} {i : ℕ} {threads : Bool}

/-! ### The loop, round by round -/

/-- The loop, and what follows it. -/
def readLoop (env : Env F) (i : ℕ) (s : Client F) : Option (Client F) :=
  (loop env i s).bind fun l => if l.2 then l.1.closeSession env i else some l.1

theorem loop_of_next (h : Live i s) (hround : round env i s = .inl s') :
    loop env i s = loop env i s' := by
  have hgood := h.good_round env
  rw [hround] at hgood
  obtain ⟨o, ho, -⟩ := Live.exists_loop env hgood.1
  have hrun : Loop.run (round env i) (rounds (s.heap i) + 1) s = some o := by
    rw [Loop.run, hround]
    exact Loop.run_mono ho hgood.2
  rw [loop, loop, hrun, ho]

theorem live_of_next (h : Live i s) (hround : round env i s = .inl s') : Live i s' := by
  have hgood := h.good_round env
  rw [hround] at hgood
  exact hgood.1

theorem readLoop_of_next (h : Live i s) (hround : round env i s = .inl s') :
    readLoop env i s = readLoop env i s' := by
  rw [readLoop, readLoop, loop_of_next h hround]

theorem readLoop_of_leave (hround : round env i s = leave s' false) :
    readLoop env i s = some s' := by
  rw [readLoop, loop, Loop.run, hround]
  rfl

theorem readLoop_of_end (hround : round env i s = leave s' true) :
    readLoop env i s = s'.closeSession env i := by
  rw [readLoop, loop, Loop.run, hround]
  rfl

/-- A session that reads its raw input, and has read all of it. -/
def Plain (st : Session) : Prop :=
  st.input = .rawInput ∧ st.inFilter = false ∧ st.chunkState = .chunkNone ∧ st.rawInput = []

instance (st : Session) : Decidable (Plain st) :=
  inferInstanceAs (Decidable (_ ∧ _ ∧ _ ∧ _))

/-- A live session of which this is true. -/
structure Ready (i : ℕ) (s : Client F) : Prop where
  live : Live i s
  plain : Plain (s.heap i).toSession

/-- The callback of a read. -/
def feed (threads : Bool) (env : Env F) (i : ℕ) (s : Client F) (bytes : List Byte) :
    Option (Client F) :=
  s.step threads (env, .read i bytes)

/-- The callback, called with one piece after the other. -/
def readAll (threads : Bool) (env : Env F) (i : ℕ) (s : Client F) (reads : List (List Byte)) :
    Option (Client F) :=
  reads.foldlM (feed threads env i) s

theorem received_nil (s : Client F) : s.received i [] = s := by
  have hreceive (st : NtripState) : st.receive [] = st := by
    rw [NtripState.receive, List.append_nil]
  rw [received, modifySt, hreceive, setSt, Function.update_eq_self]

theorem received_received (s : Client F) (x y : List Byte) :
    (s.received i x).received i y = s.received i (x ++ y) := by
  rw [received, received, received, modifySt, modifySt, modifySt, setSt, setSt, setSt]
  simp only [Function.update_self, Function.update_idem, NtripState.receive, List.append_assoc]

theorem same_received (s : Client F) (bytes : List Byte) : Same i s (s.received i bytes) :=
  same_modifySt s i rfl (.inl rfl)

theorem inputBuf_received (h : Plain (s.heap i).toSession) (bytes : List Byte) :
    ((s.received i bytes).heap i).inputBuf = some bytes := by
  rw [received, heap_modifySt_self, NtripState.inputBuf]
  have hinput : ((s.heap i).receive bytes).input = .rawInput := h.1
  rw [hinput]
  show some ((s.heap i).rawInput ++ bytes) = some bytes
  rw [h.2.2.2, List.nil_append]

/-- The callback is the loop, on what has been received. -/
theorem feed_eq (h : Ready i s) (x y : List Byte) :
    feed threads env i (s.received i x) y = readLoop env i (s.received i (x ++ y)) := by
  have hlive : Live i (s.received i x) := h.live.same (same_received s x)
  obtain ⟨own, hduties⟩ := hlive.duties
  have hrefcnt : ((s.received i x).heap i).refcnt = 2 :=
    congrArg (fun d => d.2.2.2.1) hduties
  have hcall : ¬ ((s.received i x).next ≤ i ∨ ((s.received i x).heap i).refcnt = 0 ∨
      threads ∧ ((s.received i x).heap i).state = .ntripEnd) := by
    rintro (hle | hzero | hend)
    · exact absurd hlive.lt (Nat.not_lt_of_le hle)
    · rw [hrefcnt] at hzero
      exact absurd hzero (by decide)
    · exact hlive.state hend.2
  have hfilter : ¬ ((s.received i (x ++ y)).heap i).inFilter = true := by
    rw [received, heap_modifySt_self]
    show ¬ (s.heap i).inFilter = true
    rw [h.plain.2.1]
    decide
  rw [feed, step, callback, if_neg hcall]
  show ((s.received i x).received i y).readcb env i = _
  rw [received_received, readcb, NtripState.filterRunInput, if_neg hfilter, Option.bind_some]
  dsimp only
  rw [if_pos rfl, readLoop, setSt, Function.update_eq_self]

theorem feed_ready (h : Ready i s) (y : List Byte) :
    feed threads env i s y = readLoop env i (s.received i y) := by
  have hfeed : feed threads env i (s.received i []) y = readLoop env i (s.received i ([] ++ y)) :=
    feed_eq h [] y
  rwa [received_nil, List.nil_append] at hfeed

/-- Nothing arrives. -/
theorem feed_nil (h : Ready i s) : feed threads env i s [] = some s := by
  rw [feed_ready h, received_nil]
  refine readLoop_of_leave ?_
  have hbuf := inputBuf_received h.plain []
  rw [received_nil] at hbuf
  rw [round]
  split
  · rfl
  · rw [hbuf]
    exact if_pos rfl

/-! ### Lines -/

/-- Whether a session reads lines. -/
def readsLines : SessionState → Bool
  | .waitHttpStatus => true
  | .waitHttpHeader => true
  | .waitCallbackLine => true
  | _ => false

/-- The bytes of a line are counted. -/
def took (i : ℕ) (line : List Byte) (s : Client F) : Client F :=
  s.modifySt i fun st => { st with receivedBytes := st.receivedBytes + line.length + 2 }

/-- A line of a table: its bytes are counted twice. -/
def tableLine (s : Client F) (env : Env F) (i : ℕ) (line : List Byte) : Outcome F :=
  let s := s.modifySt i fun st =>
    { st with receivedBytes := st.receivedBytes + line.length + 2 + (line.length + 1) }
  if (s.heap i).task then
    match s.lineCb env i (toCString line) with
    | none => .inr none
    | some (s, true) => leave (s.modifySt i fun st => { st with task := false }) true
    | some (s, false) => .inl s
  else .inl s

/-- What is done with a line, when nothing stands behind it. -/
def lineOutcome (env : Env F) (i : ℕ) (s : Client F) (line : List Byte) : Outcome F :=
  match (s.heap i).state with
  | .waitHttpStatus => ((s.modifySt i NtripState.clearRequest).took i line).statusLine env i line
  | .waitHttpHeader => (s.took i line).headerLine env i line
  | .waitCallbackLine => s.tableLine env i line
  | _ => leave s false

/-- A line that arrives whole, if the session then goes on, and reads its raw input. The lines of
the status and of the headers must be shorter than the limit of the configuration. -/
def serveLine (env : Env F) (i : ℕ) (s : Client F) (line : List Byte) : Option (Client F) :=
  if readsLines (s.heap i).state ∧
      ((s.heap i).state = .waitCallbackLine ∨ line.length < env.config.httpHeaderMaxSize) then
    match lineOutcome env i s line with
    | .inl s' => if Plain (s'.heap i).toSession then some s' else none
    | .inr _ => none
  else none

/-- A session that has a part of a line. The first call that finds something of a reply clears the
reply before. -/
def atLine (i : ℕ) (p : List Byte) (s : Client F) : Client F :=
  if p = [] then s
  else if (s.heap i).state = .waitHttpStatus then
    (s.modifySt i NtripState.clearRequest).received i p
  else s.received i p

theorem modifySt_modifySt (s : Client F) (f g : NtripState → NtripState) :
    (s.modifySt i f).modifySt i g = s.modifySt i fun st => g (f st) := by
  rw [modifySt, modifySt, modifySt, setSt, setSt, setSt]
  simp only [Function.update_self, Function.update_idem]

theorem modifySt_congr {f g : NtripState → NtripState} (h : f (s.heap i) = g (s.heap i)) :
    s.modifySt i f = s.modifySt i g := by
  rw [modifySt, modifySt, h]

theorem setInput_of_rawInput {st : NtripState} (h : st.input = .rawInput) (rest : List Byte) :
    st.setInput rest = { st with rawInput := rest } := by
  rw [NtripState.setInput, h]

theorem takeLine_receive {st : NtripState} (h : Plain st.toSession) (buf line rest : List Byte) :
    (st.receive buf).takeLine line rest =
      { st with receivedBytes := st.receivedBytes + line.length + 2 }.receive rest := by
  have hinput : (st.receive buf).input = .rawInput := h.1
  have hraw : st.rawInput ++ rest = rest := by rw [h.2.2.2, List.nil_append]
  rw [NtripState.takeLine, setInput_of_rawInput hinput]
  show _ = { st with
    rawInput := st.rawInput ++ rest
    receivedBytes := st.receivedBytes + line.length + 2 }
  rw [hraw]
  rfl

theorem takeLine_received (h : Plain (s.heap i).toSession) (buf line rest : List Byte) :
    (s.received i buf).modifySt i (fun st => st.takeLine line rest) =
      (s.took i line).received i rest := by
  rw [received, received, took, modifySt_modifySt, modifySt_modifySt]
  exact modifySt_congr (takeLine_receive h buf line rest)

theorem tableLine_received (line rest : List Byte) :
    (s.received i rest).tableLine env i line = (s.tableLine env i line).received i rest := by
  rw [tableLine, tableLine, modifySt_received (fun _ => rfl)]
  generalize s.modifySt i (fun st =>
    { st with receivedBytes := st.receivedBytes + line.length + 2 + (line.length + 1) }) = s₁
  rw [hasTask_received, lineCb_received]
  split
  · cases s₁.lineCb env i (toCString line) with
    | none => rfl
    | some r =>
      obtain ⟨s₂, fin⟩ := r
      cases fin with
      | false => rfl
      | true =>
        dsimp only [Option.map_some]
        rw [modifySt_received (fun _ => rfl)]
        rfl
  · rfl

theorem readLine_received (h : Plain (s.heap i).toSession) {line : List Byte} (hline : LF ∉ line)
    (hshort : line.length ≤ env.config.httpHeaderMaxSize) (rest : List Byte)
    (k : Client F → List Byte → Outcome F) :
    (s.received i (line ++ crlf ++ rest)).readLine env i k =
      k ((s.took i line).received i rest) line := by
  rw [readLine, inputBuf_received h]
  dsimp only
  rw [readlnCrlf_line hline]
  dsimp only
  rw [if_neg (Nat.not_lt_of_le hshort), takeLine_received h]

theorem plain_clearRequest (h : Plain (s.heap i).toSession) :
    Plain ((s.modifySt i NtripState.clearRequest).heap i).toSession := by
  rw [heap_modifySt_self]
  exact ⟨h.1, h.2.1, rfl, h.2.2.2⟩

/-- A line of a table is taken off the input. -/
theorem callbackLine_received (h : Plain (s.heap i).toSession) {line : List Byte}
    (hline : LF ∉ line) (rest : List Byte) :
    (s.received i (line ++ crlf ++ rest)).callbackLine env i (line ++ crlf ++ rest) =
      (s.tableLine env i line).received i rest := by
  have htake : (s.received i (line ++ crlf ++ rest)).modifySt i (fun st =>
      { st.takeLine line rest with receivedBytes := st.receivedBytes + line.length + 2 +
        (line.length + 1) }) = (s.received i rest).modifySt i fun st =>
      { st with receivedBytes := st.receivedBytes + line.length + 2 + (line.length + 1) } := by
    rw [received, received, modifySt_modifySt, modifySt_modifySt]
    refine modifySt_congr ?_
    dsimp only
    rw [takeLine_receive h]
    rfl
  rw [callbackLine, readlnCrlf_line hline, ← tableLine_received, tableLine]
  dsimp only
  rewrite [htake]
  rfl

/-- **A line is taken off the input**, and the rest of the input stays where it is. -/
theorem round_line (h : Ready i s) (hstate : readsLines (s.heap i).state = true)
    {line : List Byte} (hline : LF ∉ line)
    (hshort : (s.heap i).state = .waitCallbackLine ∨ line.length ≤ env.config.httpHeaderMaxSize)
    (rest : List Byte) : round env i (s.received i (line ++ crlf ++ rest)) =
      (lineOutcome env i s line).received i rest := by
  have hbuf := inputBuf_received h.plain (line ++ crlf ++ rest)
  have hne : line ++ crlf ++ rest ≠ [] := by simp
  rw [round, state_received, hbuf, lineOutcome]
  cases hcase : (s.heap i).state with
  | waitHttpStatus =>
    rw [hcase] at hshort
    have hle := hshort.resolve_left SessionState.noConfusion
    rw [if_neg (by decide)]
    dsimp only
    rw [if_neg hne, modifySt_received (fun _ => rfl),
      readLine_received (plain_clearRequest h.plain) hline hle, statusLine_received]
  | waitHttpHeader =>
    rw [hcase] at hshort
    have hle := hshort.resolve_left SessionState.noConfusion
    have hchunk : ((s.took i line).heap i).chunkState ≠ .chunkInit := by
      rw [took, heap_modifySt_self]
      show (s.heap i).chunkState ≠ .chunkInit
      rw [h.plain.2.2.1]
      decide
    rw [if_neg (by decide)]
    dsimp only
    rw [if_neg hne, readLine_received h.plain hline hle, headerLine_received hchunk]
  | waitCallbackLine =>
    rw [if_neg (by decide)]
    dsimp only
    rw [if_neg hne]
    exact callbackLine_received h.plain hline rest
  | _ =>
    rw [hcase] at hstate
    contradiction

/-- A part of a line is waited for. -/
theorem round_part (h : Ready i s) (hstate : readsLines (s.heap i).state = true) {p : List Byte}
    (hp : LF ∉ p)
    (hshort : (s.heap i).state = .waitCallbackLine ∨ p.length ≤ env.config.httpHeaderMaxSize) :
    round env i (s.received i p) = leave (s.atLine i p) false := by
  have hbuf := inputBuf_received h.plain p
  have hread := evbufferReadlnCrlf_eq_none_iff.mpr hp
  have hclose : ¬ (s.heap i).state = .waitClose := by
    intro hclose
    rw [hclose] at hstate
    contradiction
  rw [round, state_received, if_neg hclose, hbuf, atLine]
  dsimp only
  by_cases hnil : p = []
  · rw [if_pos hnil, if_pos hnil, hnil, received_nil]
  · rw [if_neg hnil, if_neg hnil]
    cases hcase : (s.heap i).state with
    | waitHttpStatus =>
      rw [hcase] at hshort
      have hle := hshort.resolve_left SessionState.noConfusion
      dsimp only
      rw [modifySt_received (fun _ => rfl), readLine,
        inputBuf_received (plain_clearRequest h.plain)]
      dsimp only
      rw [hread, if_pos rfl, decide_eq_false (Nat.not_lt_of_le hle)]
    | waitHttpHeader =>
      rw [hcase] at hshort
      have hle := hshort.resolve_left SessionState.noConfusion
      dsimp only
      rw [readLine, hbuf]
      dsimp only
      rw [hread, if_neg (by decide), decide_eq_false (Nat.not_lt_of_le hle)]
    | waitCallbackLine =>
      dsimp only
      rw [callbackLine, hread, if_neg (by decide)]
    | _ =>
      rw [hcase] at hstate
      contradiction

theorem serveLine_eq_some {line : List Byte} (h : serveLine env i s line = some s') :
    (readsLines (s.heap i).state = true ∧
      ((s.heap i).state = .waitCallbackLine ∨ line.length < env.config.httpHeaderMaxSize)) ∧
      lineOutcome env i s line = .inl s' ∧ Plain (s'.heap i).toSession := by
  rw [serveLine] at h
  split at h
  · next hstate =>
    split at h
    · next s₁ hnext =>
      split at h
      · next hplain =>
        obtain rfl := Option.some.inj h
        exact ⟨hstate, hnext, hplain⟩
      · contradiction
    · contradiction
  · contradiction

theorem readLoop_congr (h : Live i s) (h' : Live i s')
    (hround : round env i s = round env i s') : readLoop env i s = readLoop env i s' := by
  cases hnext : round env i s with
  | inl s₁ => rw [readLoop_of_next h hnext, readLoop_of_next h' (hround.symm.trans hnext)]
  | inr o => rw [readLoop, readLoop, loop, loop, Loop.run, Loop.run, ← hround, hnext]

theorem ready_clearRequest (h : Ready i s) : Ready i (s.modifySt i NtripState.clearRequest) :=
  ⟨h.live.same (same_modifySt s i rfl (.inl rfl)), plain_clearRequest h.plain⟩

/-- A session that waits for a status clears the reply before, once or again. -/
theorem readLoop_clearRequest (h : Ready i s) (hstate : (s.heap i).state = .waitHttpStatus)
    {x : List Byte} (hx : x ≠ []) :
    readLoop env i ((s.modifySt i NtripState.clearRequest).received i x) =
      readLoop env i (s.received i x) := by
  have hclear := ready_clearRequest h
  have hstate' : ((s.modifySt i NtripState.clearRequest).heap i).state = .waitHttpStatus := by
    rw [heap_modifySt_self]
    exact hstate
  refine readLoop_congr (hclear.live.same (same_received _ x)) (h.live.same (same_received s x)) ?_
  rw [round, round, state_received, state_received, hstate, hstate', if_neg (by decide),
    inputBuf_received hclear.plain, inputBuf_received h.plain]
  dsimp only
  rw [if_neg hx, if_neg hx, modifySt_received (fun _ => rfl), modifySt_received (fun _ => rfl),
    modifySt_modifySt]
  rfl

theorem feed_atLine (h : Ready i s) (p y : List Byte) :
    feed threads env i (s.atLine i p) y = readLoop env i (s.received i (p ++ y)) := by
  rw [atLine]
  split
  · next hp => rw [feed_ready h, hp, List.nil_append]
  · next hp =>
    split
    · next hstate =>
      rw [feed_eq (ready_clearRequest h), readLoop_clearRequest h hstate (by simp [hp])]
    · exact feed_eq h p y

/-- **A line is read at once.** -/
theorem reads_line (h : Ready i s) {line : List Byte} (hline : LF ∉ line)
    (hserve : serveLine env i s line = some s') :
    Reads (feed threads env i) some [line ++ crlf]
      (fun k p => if k = 0 then s.atLine i p else s') ∧ Ready i s' := by
  obtain ⟨⟨hstate, hshort⟩, hnext, hplain⟩ := serveLine_eq_some hserve
  have hlive (bytes : List Byte) : Live i (s.received i bytes) :=
    h.live.same (same_received s bytes)
  have hround (rest : List Byte) : round env i (s.received i (line ++ crlf ++ rest)) =
      .inl (s'.received i rest) := by
    rw [round_line h hstate hline (hshort.imp_right Nat.le_of_lt), hnext]
    rfl
  have hready : Ready i s' := by
    have hlive' := live_of_next (hlive _) (hround [])
    rw [received_nil] at hlive'
    exact ⟨hlive', hplain⟩
  refine ⟨⟨?_, ?_, ?_⟩, hready⟩
  · intro u hu
    rw [List.mem_singleton.mp hu]
    simp
  · intro k hk p y q hq heq
    obtain rfl : k = 0 := Nat.lt_one_iff.mp hk
    rw [← List.append_assoc] at heq
    obtain ⟨hmem, hlen⟩ := not_mem_of_part hline hq heq
    show feed threads env i (s.atLine i p) y = some (s.atLine i (p ++ y))
    rw [feed_atLine h]
    exact readLoop_of_leave (round_part h hstate hmem (hshort.imp_right fun hlt => by omega))
  · intro k hk p y rest _ heq
    obtain rfl : k = 0 := Nat.lt_one_iff.mp hk
    have htext : p ++ (y ++ rest) = line ++ crlf ++ rest := by
      rw [← List.append_assoc, heq]
      rfl
    show feed threads env i (s.atLine i p) (y ++ rest) = feed threads env i s' rest
    rw [feed_atLine h, htext, readLoop_of_next (hlive _) (hround rest), feed_ready hready]

/-- Lines are read one by one. -/
theorem readsTo_lines {lines : List (List Byte)} (h : Ready i s)
    (hlines : ∀ line ∈ lines, LF ∉ line)
    (hserve : lines.foldlM (serveLine env i) s = some s') :
    ReadsTo (feed threads env i) some (fun _ => True) s (writeLines lines) s' ∧ Ready i s' := by
  refine ReadsTo.foldlM (fun s line s' hline hs hserve => ?_) h hserve
  obtain ⟨hread, hready⟩ := reads_line hs (hlines line hline) hserve
  exact ⟨.single hread rfl rfl fun _ _ _ _ => trivial, hready⟩

/-- **Lines, in pieces.** If the lines of a reply, each of them whole, are taken one after the
other, then so they are when they arrive in pieces, however the reply is cut; and any beginning of
the reply is read as if it arrived at once. -/
theorem readAll_lines {lines : List (List Byte)} (h : Ready i s)
    (hlines : ∀ line ∈ lines, LF ∉ line)
    (hserve : lines.foldlM (serveLine env i) s = some s') (reads : List (List Byte)) :
    (reads.flatten = (writeLines lines).flatten → readAll threads env i s reads = some s') ∧
      ∀ rest, reads.flatten ++ rest = (writeLines lines).flatten →
        readAll threads env i s reads = s.step threads (env, .read i reads.flatten) := by
  obtain ⟨hread, hready⟩ := readsTo_lines h hlines hserve
  exact hread.pieces_eq (feed_nil hready)

/-! ### The status and the headers -/

/-- What a header sets, if it does not announce chunks. -/
def headerUpdate (header : CString × CString) (st : NtripState) : NtripState :=
  if ¬ strcasecmp header.1 (cstr "connection") then
    if ¬ strcasecmp header.2 (cstr "keep-alive") then { st with receivedKeepalive := true } else st
  else if ¬ strcasecmp header.1 (cstr "content-length") then
    match sscanfLu header.2 with
    | none => st
    | some contentLength => { st with contentLength := contentLength, contentDone := 0 }
  else if ¬ strcasecmp header.1 (cstr "content-type") then { st with contentType := some header.2 }
  else st

/-- A header line is read. -/
def readHeader (st : NtripState) (header : CString × CString) : NtripState :=
  headerUpdate header { st with
    receivedBytes := st.receivedBytes + (headerText header).length + 2 }

/-- A header that a client takes: it does not announce chunks, nor more content than the client
allows, and its line is short. -/
structure Taken (env : Env F) (header : CString × CString) : Prop where
  key : ∀ c ∈ header.1, c ≠ 58 ∧ c ≠ 0 ∧ c ≠ CR ∧ c ≠ LF
  value : Clean header.2
  unchunked : strcasecmp header.1 (cstr "transfer-encoding") = true
  len : strcasecmp header.1 (cstr "content-length") = false →
    ∀ n, sscanfLu header.2 = some n → n ≤ env.config.httpContentLengthMax
  short : (headerText header).length < env.config.httpHeaderMaxSize

theorem modifySt_id (s : Client F) {f : NtripState → NtripState} (h : f (s.heap i) = s.heap i) :
    s.modifySt i f = s := by
  rw [modifySt, h, setSt, Function.update_eq_self]

theorem setHeader_eq {header : CString × CString} (h : Taken env header) :
    s.setHeader env i header.1 header.2 = .inl (s.modifySt i (headerUpdate header)) := by
  have hself (hnone : ∀ st, headerUpdate header st = st) :
      s.modifySt i (headerUpdate header) = s := modifySt_id s (hnone _)
  rw [setHeader, if_neg (by rw [h.unchunked]; decide)]
  by_cases hconnection : ¬ strcasecmp header.1 (cstr "connection") = true
  · rw [if_pos hconnection]
    by_cases hkeep : ¬ strcasecmp header.2 (cstr "keep-alive") = true
    · rw [if_pos hkeep]
      refine congrArg Sum.inl (modifySt_congr ?_)
      rw [headerUpdate, if_pos hconnection, if_pos hkeep]
    · rw [if_neg hkeep, hself fun st => ?_]
      rw [headerUpdate, if_pos hconnection, if_neg hkeep]
  · rw [if_neg hconnection]
    by_cases hlen : ¬ strcasecmp header.1 (cstr "content-length") = true
    · rw [if_pos hlen]
      have hmax := h.len (Bool.eq_false_iff.mpr hlen)
      cases hscan : sscanfLu header.2 with
      | none =>
        rw [hself fun st => ?_]
        rw [headerUpdate, if_neg hconnection, if_pos hlen, hscan]
      | some n =>
        dsimp only
        rw [if_neg (Nat.not_lt_of_le (hmax n hscan))]
        refine congrArg Sum.inl (modifySt_congr ?_)
        rw [headerUpdate, if_neg hconnection, if_pos hlen, hscan]
    · rw [if_neg hlen]
      by_cases htype : ¬ strcasecmp header.1 (cstr "content-type") = true
      · rw [if_pos htype]
        refine congrArg Sum.inl (modifySt_congr ?_)
        rw [headerUpdate, if_neg hconnection, if_neg hlen, if_pos htype]
      · rw [if_neg htype, hself fun st => ?_]
        rw [headerUpdate, if_neg hconnection, if_neg hlen, if_neg htype]

theorem toSession_headerUpdate (header : CString × CString) (st : NtripState) :
    (headerUpdate header st).toSession = st.toSession := by
  rw [headerUpdate]
  split
  · split <;> rfl
  · split
    · split <;> rfl
    · split <;> rfl

/-- **A header** is read. -/
theorem serveLine_header {header : CString × CString} (hplain : Plain (s.heap i).toSession)
    (hstate : (s.heap i).state = .waitHttpHeader) (h : Taken env header) :
    serveLine env i s (headerText header) = some (s.modifySt i (readHeader · header)) := by
  have hparse : parseHeader (toCString (headerText header)) = some header :=
    parseHeader_headerText ⟨fun hc => (h.key _ hc).1 rfl, fun hc => (h.key _ hc).2.1 rfl⟩ h.value
  have hlen : (headerText header).length ≠ 0 := by simp [headerText]
  have hnext : lineOutcome env i s (headerText header) =
      .inl (s.modifySt i (readHeader · header)) := by
    rw [lineOutcome, hstate]
    dsimp only
    rw [headerLine, if_neg hlen, hparse]
    dsimp only
    rw [setHeader_eq h, took, modifySt_modifySt]
    rfl
  rw [serveLine, if_pos ⟨by rw [hstate]; rfl, .inr h.short⟩, hnext]
  refine if_pos ?_
  rw [heap_modifySt_self, readHeader, toSession_headerUpdate]
  exact hplain

theorem plain_readHeader {st : NtripState} (header : CString × CString) :
    (Plain (readHeader st header).toSession ↔ Plain st.toSession) ∧
      (readHeader st header).state = st.state := by
  rw [readHeader, toSession_headerUpdate]
  exact ⟨Iff.rfl, rfl⟩

/-- **The headers** are read one after the other. -/
theorem foldlM_headers {headers : Evkeyvalq} (hplain : Plain (s.heap i).toSession)
    (hstate : (s.heap i).state = .waitHttpHeader) (h : ∀ header ∈ headers, Taken env header) :
    (headers.map headerText).foldlM (serveLine env i) s =
      some (s.modifySt i fun st => headers.foldl readHeader st) := by
  induction headers generalizing s with
  | nil =>
    rw [modifySt_id s rfl]
    rfl
  | cons header headers ih =>
    rw [List.map_cons, List.foldlM_cons,
      serveLine_header hplain hstate (h header List.mem_cons_self)]
    obtain ⟨hplain', hstate'⟩ := @plain_readHeader (s.heap i) header
    show (headers.map headerText).foldlM (serveLine env i) (s.modifySt i (readHeader · header)) = _
    rw [ih (by rw [heap_modifySt_self]; exact hplain'.mpr hplain)
      (by rw [heap_modifySt_self]; exact hstate'.trans hstate)
      fun header hheader => h header (List.mem_cons_of_mem _ hheader), modifySt_modifySt]
    rfl

/-- The session after a status line. -/
def readStatus (args : List CString) (line : List Byte) (st : NtripState) : NtripState :=
  { st.clearRequest with
    receivedBytes := st.receivedBytes + line.length + 2
    httpArgs := args
    statusCode := 200 }

/-- **A status** of success is passed to the task. -/
theorem serveLine_status {line : List Byte} {version msg : CString} {s₁ : Client F}
    (hstate : (s.heap i).state = .waitHttpStatus)
    (hargs : (splitArgs (toCString line)).take 3 = [version, cstr "200", msg])
    (hversion : version ≠ cstr "ERROR" ∧ version ≠ cstr "ICY")
    (hshort : line.length < env.config.httpHeaderMaxSize)
    (hcb : (s.modifySt i (readStatus [version, cstr "200", msg] line)).statusCb env i 200 = some s₁)
    (hcode : (s₁.heap i).statusCode = 200) (hplain : Plain (s₁.heap i).toSession) :
    serveLine env i s line = some (s₁.setState i .waitHttpHeader) := by
  have hscan : sscanfLu (cstr "200") = some 200 := by decide +kernel
  have hnext : lineOutcome env i s line = .inl (s₁.setState i .waitHttpHeader) := by
    rw [lineOutcome, hstate]
    dsimp only
    rw [statusLine, hargs, if_neg (by simpa using hversion.1)]
    dsimp only
    rw [if_neg (by decide +kernel), hscan]
    dsimp only
    rw [gotStatus, if_neg (by simp [hversion.2]), took, modifySt_modifySt, modifySt_modifySt,
      modifySt_modifySt]
    have hread : (s.modifySt i fun st =>
        { ({ st.clearRequest with
            receivedBytes := st.clearRequest.receivedBytes + line.length + 2 } : NtripState) with
          httpArgs := [version, cstr "200", msg]
          statusCode := (BitVec.ofNat 32 200).truncate 16 }).statusCb env i (.ofNat 32 200) =
        some s₁ := hcb
    rw [hread]
    exact if_pos hcode
  rw [serveLine, if_pos ⟨by rw [hstate]; rfl, .inr hshort⟩, hnext]
  refine if_pos ?_
  rw [setState, heap_modifySt_self]
  exact hplain

end Client

end Ntripcli

end ChilopodCaster
