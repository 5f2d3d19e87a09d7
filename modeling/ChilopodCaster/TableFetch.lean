import ChilopodCaster.ReplyText
import ChilopodCaster.SourcetableFetch

/-!
# A table from another caster

The table that `ntripsrv_send_sourcetable` writes reaches a sourcetable fetcher of the same program
in pieces. At the last line, and whatever the pieces, the fetcher has put the same table into its
stack, and its session is over.

## Main definitions

* `Client.Fetches` — the session of a sourcetable fetcher

## Main results

* `Client.exists_serveLine_add` — a line of the table
* `Client.table_fetched` — the whole table
-/

namespace ChilopodCaster

namespace Ntripcli

open ChunkDecode Pieces
open Ntripsrv (replyLine replyHeaders replyText serverHeader sendSourcetable)

variable {F : Type}

namespace Client

variable {s s' s₁ : Client F} {env : Env F} {i : ℕ} {threads : Bool} {new t t' : Sourcetable F}
  {args : SourcetableFetchArgs F} {line : CString}

/-! ### The last line of a reply -/

/-- A line after which a session is closed. -/
theorem last_line (h : Ready i s) (hstate : readsLines (s.heap i).state = true) (hline : LF ∉ line)
    (hshort : (s.heap i).state = .waitCallbackLine ∨ line.length < env.config.httpHeaderMaxSize)
    (hout : lineOutcome env i s line = leave s₁ true) (hclose : s₁.closeSession env i = some s')
    (hstop : feed threads env i s' [] = some s') :
    ReadsTo.Last (feed threads env i) (line ++ crlf) (fun p => s.atLine i p) s' where
  ne_nil := by simp [crlf]
  part p y q hq heq := by
    rw [← List.append_assoc] at heq
    obtain ⟨hmem, hlen⟩ := not_mem_of_part hline hq heq
    rw [feed_atLine h]
    exact readLoop_of_leave (round_part h hstate hmem (hshort.imp_right fun hlt => by omega))
  unit p y _ heq := by
    have hround := round_line h hstate hline (hshort.imp_right Nat.le_of_lt) []
    rw [List.append_nil, hout] at hround
    have hleave : (leave s₁ true : Outcome F).received i [] = leave s₁ true := by
      rw [leave, Outcome.received, received_nil]
    rw [feed_atLine h, heq, readLoop_of_end (hround.trans hleave), hclose]
    rfl
  stop := hstop

/-! ### The fetcher -/

/-- The session of a sourcetable fetcher without a filter, with the table that it fills. -/
structure Fetches (i : ℕ) (new : Sourcetable F) (args : SourcetableFetchArgs F) (t : Sourcetable F)
    (s : Client F) : Prop where
  ready : Ready i s
  owner : s.task.owner = .sourcetableFetcher new args
  sourcetable : args.sourcetable = some t
  jsonConfig : args.jsonConfig = .null
  mountpoint : (s.heap i).mountpoint = []

/-- **A line of the table** is added to it. -/
theorem exists_serveLine_add (h : Fetches i new args t s)
    (hstate : (s.heap i).state = .waitCallbackLine) (hlf : LF ∉ line) (hnul : 0 ∉ line)
    (hend : line ≠ Sourcetable.endMark) (hadd : t.addUnlocked env.scanFloat line true = some t') :
    ∃ s', serveLine env i s line = some s' ∧
      Fetches i new { args with sourcetable := some t' } t' s' ∧
      (s'.heap i).state = .waitCallbackLine := by
  let s₁ := s.modifySt i fun st =>
    { st with receivedBytes := st.receivedBytes + line.length + 2 + (line.length + 1) }
  let s' := s₁.setOwner (.sourcetableFetcher new { args with sourcetable := some t' })
  have hheap₁ : s₁.heap i = { s.heap i with
      receivedBytes := (s.heap i).receivedBytes + line.length + 2 + (line.length + 1) } :=
    heap_modifySt_self s i _
  have hheap : s'.heap i = _ := hheap₁
  have hcb : args.sourcetableLineCb env.scanFloat env.text env.timeOfDay line =
      ({ args with sourcetable := some t' }, false) := by
    rw [SourcetableFetchArgs.sourcetableLineCb, h.sourcetable]
    dsimp only
    rw [if_neg hend, if_neg (by rw [h.jsonConfig]; simp [Json.isNull]), hadd]
  have hline : s₁.lineCb env i line = some (s', false) := by
    rw [lineCb, show s₁.task.owner = _ from h.owner]
    dsimp only
    rw [hcb]
    exact if_pos rfl
  have htask : (s₁.heap i).task = true := by
    rw [heap_modifySt_self]
    exact h.ready.live.task
  have hnext : lineOutcome env i s line = .inl s' := by
    rw [lineOutcome, hstate]
    dsimp only
    rw [tableLine, if_pos htask, toCString_of_not_mem hnul, hline]
  have hplain : Plain (s'.heap i).toSession := by
    rw [hheap]
    exact h.ready.plain
  have hserve : serveLine env i s line = some s' := by
    rw [serveLine, if_pos ⟨by rw [hstate]; rfl, .inl hstate⟩, hnext]
    exact if_pos hplain
  refine ⟨s', hserve, ⟨(@reads_line _ _ _ _ _ false h.ready _ hlf hserve).2, rfl, rfl,
    h.jsonConfig, ?_⟩, ?_⟩
  · rw [hheap]
    exact h.mountpoint
  · rw [hheap]
    exact hstate

/-- The lines before the last one. -/
theorem exists_serveLines_add {lines : List CString} (h : Fetches i new args t s)
    (hstate : (s.heap i).state = .waitCallbackLine) (hlf : ∀ line ∈ lines, LF ∉ line)
    (hnul : ∀ line ∈ lines, 0 ∉ line) (hend : Sourcetable.endMark ∉ lines)
    (hadd : lines.foldlM (fun t line => t.addUnlocked env.scanFloat line true) t = some t') :
    ∃ s', lines.foldlM (serveLine env i) s = some s' ∧
      Fetches i new { args with sourcetable := some t' } t' s' ∧
      (s'.heap i).state = .waitCallbackLine := by
  induction lines generalizing s args t with
  | nil =>
    obtain rfl := Option.some.inj hadd
    refine ⟨s, rfl, ?_, hstate⟩
    rwa [← h.sourcetable]
  | cons line lines ih =>
    rw [List.mem_cons, not_or] at hend
    rw [List.foldlM_cons] at hadd
    obtain ⟨t₁, hadd₁, hadd⟩ := Option.bind_eq_some_iff.mp hadd
    obtain ⟨s₁, hserve, h₁, hstate₁⟩ := exists_serveLine_add h hstate (hlf line List.mem_cons_self)
      (hnul line List.mem_cons_self) (Ne.symm hend.1) hadd₁
    obtain ⟨s', hrun, h', hstate'⟩ := ih h₁ hstate₁
      (fun line hline => hlf line (List.mem_cons_of_mem _ hline))
      (fun line hline => hnul line (List.mem_cons_of_mem _ hline)) hend.2 hadd
    refine ⟨s', ?_, h', hstate'⟩
    rw [List.foldlM_cons, hserve]
    exact hrun

/-- What the fetcher keeps once it has put the table into the stack. -/
def finished (env : Env F) (args : SourcetableFetchArgs F) (t : Sourcetable F) :
    SourcetableFetchArgs F :=
  { args with
    sourcetable := none
    replaced := args.replaced ++ [{ t with fetchTime := env.timeOfDay, pullable := true }]
    ended := args.ended ++ [true] }

theorem heap_reschedule (s : Client F) : s.reschedule.heap = s.heap := by
  rw [reschedule]
  split <;> rfl

theorem task_reschedule (s : Client F) :
    s.reschedule.task.owner = s.task.owner ∧ s.reschedule.task.st = s.task.st := by
  rw [reschedule]
  split <;> exact ⟨rfl, rfl⟩

/-- At the last line the table is put into the stack, and the session leaves the task. -/
theorem exists_lineCb_endMark (env : Env F) (howner : s.task.owner = .sourcetableFetcher new args)
    (htable : args.sourcetable = some t) (hst : s.task.st = some i) :
    ∃ s', s.lineCb env i Sourcetable.endMark = some (s', true) ∧
      s'.task.owner = .sourcetableFetcher new (finished env args t) ∧ s'.task.st = none ∧
      s'.heap i = { s.heap i with
        refcnt := (s.heap i).refcnt - 1
        endCbs := (s.heap i).endCbs + 1
        task := false } := by
  let s₁ := s.setOwner (.sourcetableFetcher new (finished env args t))
  let s₂ := ({ s₁ with task := { s₁.task with st := none } } : Client F).modifySt i
    fun st => { st with task := false }
  let s₃ := (s₂.modifySt i NtripState.decref).reschedule
  have hclear : s₁.clearSt = s₂.modifySt i NtripState.decref := by
    rw [clearSt, show s₁.task.st = some i from hst]
    dsimp only
    rw [clearGetSt, show s₁.task.st = some i from hst]
  have hended : ¬ args.ended ++ [true] = args.ended := by simp
  refine ⟨s₃.modifySt i fun st => { st with endCbs := st.endCbs + 1 }, ?_,
    (task_reschedule _).1, (task_reschedule _).2, ?_⟩
  · rw [lineCb, howner]
    dsimp only
    rw [SourcetableFetchArgs.sourcetableLineCb_endMark htable]
    refine (if_neg hended).trans ?_
    show some (s₁.clearSt.reschedule.modifySt i _, true) = _
    rw [hclear]
  · rw [heap_modifySt_self, heap_reschedule, heap_modifySt_self, heap_modifySt_self]
    rfl

/-- A session that has left its task is closed. -/
theorem exists_closeSession (env : Env F) (hplain : Plain (s.heap i).toSession)
    (hstate : (s.heap i).state ≠ .ntripEnd) (htask : (s.heap i).task = false)
    (hrefcnt : (s.heap i).refcnt = 1) (hendCbs : (s.heap i).endCbs = 1)
    (hstopped : (s.heap i).stopped = false) :
    ∃ s', s.closeSession env i = some s' ∧ s'.task = s.task ∧ (s'.heap i).Gone := by
  have hbuf : (s.heap i).inputBuf ≠ none := by
    rw [NtripState.inputBuf, hplain.1]
    exact Option.some_ne_none _
  obtain ⟨hend, htask', hrefcnt', hendCbs', hstopped'⟩ := NtripState.decrefEnd_eq hstate
  refine ⟨s.modifySt i NtripState.decrefEnd, ?_, rfl, ?_⟩
  · rw [closeSession, notifyClose, if_neg (by rw [htask]; exact Bool.false_ne_true),
      Option.bind_some]
    exact if_neg hbuf
  · rw [heap_modifySt_self]
    refine ⟨hend, htask'.trans htask, ?_, ?_⟩
    · rw [hrefcnt', hrefcnt]
    · rw [hendCbs', hstopped', hendCbs, hstopped]
      rfl

/-- **The last line** puts the table into the stack, and ends the session. -/
theorem exists_lastLine (env : Env F) (h : Fetches i new args t s)
    (hstate : (s.heap i).state = .waitCallbackLine) :
    ∃ s₁ s', lineOutcome env i s Sourcetable.endMark = leave s₁ true ∧
      s₁.closeSession env i = some s' ∧
      s'.task.owner = .sourcetableFetcher new (finished env args t) ∧ s'.task.st = none ∧
      (s'.heap i).Gone := by
  let s₁ := s.modifySt i fun st => { st with
    receivedBytes := st.receivedBytes + Sourcetable.endMark.length + 2 +
      (Sourcetable.endMark.length + 1) }
  have hheap₁ : s₁.heap i = { s.heap i with
      receivedBytes := (s.heap i).receivedBytes + Sourcetable.endMark.length + 2 +
        (Sourcetable.endMark.length + 1) } := heap_modifySt_self s i _
  obtain ⟨s₂, hline, howner₂, hst₂, hheap₂⟩ := exists_lineCb_endMark env
    (show s₁.task.owner = .sourcetableFetcher new args from h.owner) h.sourcetable h.ready.live.st
  let s₃ := s₂.modifySt i fun st => { st with task := false }
  have hheap₃ : s₃.heap i = { s₁.heap i with
      refcnt := (s₁.heap i).refcnt - 1
      endCbs := (s₁.heap i).endCbs + 1
      task := false } := by
    rw [heap_modifySt_self, hheap₂]
  have hnul : (0 : Byte) ∉ Sourcetable.endMark := by decide
  have htask : (s₁.heap i).task = true := by
    rw [hheap₁]
    exact h.ready.live.task
  have hout : lineOutcome env i s Sourcetable.endMark = leave s₃ true := by
    rw [lineOutcome, hstate]
    dsimp only
    rw [tableLine, if_pos htask, toCString_of_not_mem hnul, hline]
  obtain ⟨own, hduties⟩ := h.ready.live.duties
  simp only [NtripState.duties, Prod.mk.injEq] at hduties
  obtain ⟨-, hendCbs, hstopped, hrefcnt, -⟩ := hduties
  rw [hheap₁] at hheap₃
  have hplain : Plain (s₃.heap i).toSession := by
    rw [hheap₃]
    exact h.ready.plain
  have hlive : (s₃.heap i).state ≠ .ntripEnd := by
    rw [hheap₃]
    exact h.ready.live.state
  obtain ⟨s', hclose, htask', hgone⟩ := exists_closeSession env hplain hlive
    (by rw [hheap₃]) (by rw [hheap₃]; exact congrArg (· - 1) hrefcnt)
    (by rw [hheap₃]; exact congrArg (· + 1) hendCbs) (by rw [hheap₃]; exact hstopped)
  exact ⟨s₃, s', hout, hclose, by rw [htask']; exact howner₂, by rw [htask']; exact hst₂, hgone⟩

/-! ### The status and the end of the headers -/

/-- The first word of the reply. -/
def IsTableWord (firstword : CString) : Prop :=
  firstword = cstr "HTTP/1.1" ∨ firstword = cstr "SOURCETABLE"

theorem exists_serveLine_tableStatus (h : Fetches i new args t s)
    (hstate : (s.heap i).state = .waitHttpStatus) {firstword : CString}
    (hword : IsTableWord firstword) (hmax : 64 < env.config.httpHeaderMaxSize) :
    ∃ s', serveLine env i s (replyLine firstword 200 (cstr "OK")) = some s' ∧ s'.task = s.task ∧
      s'.heap i = { readStatus [firstword, cstr "200", cstr "OK"]
          (replyLine firstword 200 (cstr "OK")) (s.heap i) with state := .waitHttpHeader } := by
  let line := replyLine firstword 200 (cstr "OK")
  let f := readStatus [firstword, cstr "200", cstr "OK"] line
  have hargs : (splitArgs (toCString line)).take 3 = [firstword, cstr "200", cstr "OK"] ∧
      firstword ≠ cstr "ERROR" ∧ firstword ≠ cstr "ICY" ∧ line.length < 64 := by
    rcases hword with rfl | rfl <;> decide
  obtain ⟨hargs, herror, hicy, hlen⟩ := hargs
  have hheap : (s.modifySt i f).heap i = f (s.heap i) := heap_modifySt_self s i f
  have hcb : (s.modifySt i f).statusCb env i 200 = some (s.modifySt i f) := by
    have htask : ((s.modifySt i f).heap i).task = true := by
      rw [hheap]
      exact h.ready.live.task
    rw [statusCb, if_pos htask, task_modifySt, h.owner]
  have hcode : ((s.modifySt i f).heap i).statusCode = 200 := by
    rw [hheap]
    rfl
  have hplain : Plain ((s.modifySt i f).heap i).toSession := by
    rw [hheap]
    exact ⟨h.ready.plain.1, h.ready.plain.2.1, rfl, h.ready.plain.2.2.2⟩
  refine ⟨(s.modifySt i f).setState i .waitHttpHeader, serveLine_status hstate hargs
    ⟨herror, hicy⟩ (hlen.trans hmax) hcb hcode hplain, rfl, ?_⟩
  rw [setState, heap_modifySt_self, hheap]

/-- The lines of the table follow. -/
theorem serveLine_tableEnd (hplain : Plain (s.heap i).toSession)
    (hstate : (s.heap i).state = .waitHttpHeader) (hmax : 64 < env.config.httpHeaderMaxSize)
    (howner : s.task.owner.hasLineCb = true) (hmountpoint : (s.heap i).mountpoint = [])
    (htask : (s.heap i).task = true) :
    serveLine env i s [] = some ((s.took i []).setState i .waitCallbackLine) := by
  have hheap : (s.took i []).heap i =
      { s.heap i with receivedBytes := (s.heap i).receivedBytes + 2 } := by
    rw [took, heap_modifySt_self]
    rfl
  have hnext : lineOutcome env i s [] = .inl ((s.took i []).setState i .waitCallbackLine) := by
    rw [lineOutcome, hstate]
    dsimp only
    rw [headerLine, if_pos List.length_nil, endHeaders, hheap]
    dsimp only
    rw [hplain.2.2.1, if_neg (by decide), afterHeaders, hheap]
    dsimp only
    rw [if_neg (not_not_intro hmountpoint)]
    exact if_pos ⟨htask, howner⟩
  rw [serveLine, if_pos ⟨by rw [hstate]; rfl, .inr (Nat.zero_lt_of_lt hmax)⟩, hnext]
  refine if_pos ?_
  rw [setState, heap_modifySt_self, hheap]
  exact hplain

/-- The lines before those of the table. -/
def headLines (date firstword : CString) (m : Option Ntripsrv.Content) (keepAlive : Bool) :
    List CString :=
  replyLine firstword 200 (cstr "OK") ::
    ((replyHeaders date m keepAlive []).map headerText ++ [[]])

theorem not_mem_headLines {date firstword : CString} {m : Option Ntripsrv.Content}
    {keepAlive : Bool} (hword : IsTableWord firstword)
    (htaken : ∀ header ∈ replyHeaders date m keepAlive [], Taken env header) :
    ∀ line ∈ headLines date firstword m keepAlive, LF ∉ line := by
  intro line hline
  rcases List.mem_cons.mp hline with rfl | hline
  · rcases hword with rfl | rfl <;> decide
  · rcases List.mem_append.mp hline with hline | hline
    · obtain ⟨header, hheader, rfl⟩ := List.mem_map.mp hline
      exact not_mem_headerText (htaken header hheader)
    · rw [List.mem_singleton.mp hline]
      exact List.not_mem_nil

/-- **The status and the headers** are read, and the lines of the table follow. -/
theorem exists_serveLines_head (h : Fetches i new args t s)
    (hstate : (s.heap i).state = .waitHttpStatus) {date firstword : CString}
    {m : Option Ntripsrv.Content} {keepAlive : Bool} (hword : IsTableWord firstword)
    (hmax : 64 < env.config.httpHeaderMaxSize)
    (htaken : ∀ header ∈ replyHeaders date m keepAlive [], Taken env header)
    (hlen : ∀ content ∈ m, content.s.length ≤ SIZE_MAX) :
    ∃ s', (headLines date firstword m keepAlive).foldlM (serveLine env i) s = some s' ∧
      Fetches i new args t s' ∧ (s'.heap i).state = .waitCallbackLine := by
  obtain ⟨s₁, hstatus, htask₁, hheap₁⟩ := exists_serveLine_tableStatus h hstate hword hmax
  have hplain₁ : Plain (s₁.heap i).toSession := (serveLine_eq_some hstatus).2.2
  have hstate₁ : (s₁.heap i).state = .waitHttpHeader := by rw [hheap₁]
  have hmountpoint₁ : (s₁.heap i).mountpoint = [] := by
    rw [hheap₁]
    exact h.mountpoint
  have hhas₁ : (s₁.heap i).task = true := by
    rw [hheap₁]
    exact h.ready.live.task
  obtain ⟨s₂, hheaders, htask₂, hsame, -, -⟩ := exists_replyHeaders hplain₁ hstate₁ htaken hlen
    (by rw [hheap₁]; rfl) (by rw [hheap₁]; rfl)
  obtain ⟨hplain₂, hstate₂, hmountpoint₂, -, hhas₂⟩ := hsame.kept
  have howner : s₂.task.owner = .sourcetableFetcher new args := by rw [htask₂, htask₁, h.owner]
  have hend := serveLine_tableEnd (hplain₂.mpr hplain₁) (hstate₂.trans hstate₁) hmax
    (by rw [howner]; rfl) (hmountpoint₂.trans hmountpoint₁) (hhas₂.trans hhas₁)
  have hrun : (headLines date firstword m keepAlive).foldlM (serveLine env i) s =
      some ((s₂.took i []).setState i .waitCallbackLine) := by
    rw [headLines, List.foldlM_cons, hstatus]
    show (_ ++ [[]] : List CString).foldlM (serveLine env i) s₁ = _
    rw [List.foldlM_append, hheaders]
    show ([[]] : List CString).foldlM (serveLine env i) s₂ = _
    rw [List.foldlM_cons, hend]
    rfl
  have hready := (@readsTo_lines _ _ _ _ _ false _ h.ready (not_mem_headLines hword htaken) hrun).2
  have hheap : ((s₂.took i []).setState i .waitCallbackLine).heap i = { s₂.heap i with
      receivedBytes := (s₂.heap i).receivedBytes + 2
      state := .waitCallbackLine } := by
    rw [setState, heap_modifySt_self, took, heap_modifySt_self]
    rfl
  refine ⟨_, hrun, ⟨hready, howner, h.sourcetable, h.jsonConfig, ?_⟩, ?_⟩
  · rw [hheap]
    exact hmountpoint₂.trans hmountpoint₁
  · rw [hheap]

/-! ### The reply -/

/-- What is recorded of the reply. -/
theorem exists_sendSourcetable {W G : Type} {c : Ntripsrv.Caster W G} {srv : Ntripsrv.Server W G}
    {text : List Byte} (hget : c.sourcetableGet srv.w = some text) :
    ∃ firstword mimeType keepAlive, IsTableWord firstword ∧
      (Clean mimeType ∧ mimeType.length ≤ 32) ∧
      sendSourcetable c srv = (srv.record (.reply (.server firstword 200 (cstr "OK")
        (some ⟨some mimeType, text⟩) keepAlive [])), 0) := by
  have hmsg : Ntripsrv.httpMessage 200 = cstr "OK" := by decide
  have hmime : ∀ mimeType ∈ [cstr "text/plain", cstr "gnss/sourcetable"],
      Clean mimeType ∧ mimeType.length ≤ 32 := by decide
  rw [sendSourcetable, hget]
  dsimp only
  rw [Ntripsrv.sendServerReply, hmsg]
  refine ⟨_, _, _, ?_, ?_, rfl⟩
  · split
    · exact .inr rfl
    · exact .inl rfl
  · refine hmime _ ?_
    split <;> simp

theorem joinLines_eq (lines : List CString) :
    Sourcetable.joinLines lines = (writeLines lines).flatten := List.flatMap_def ..

/-- The lines of the text of a table, without the last one: they make the same table again. -/
theorem exists_tableLines {this : Sourcetable F} {scanFloat : CString → Option F}
    (hthis : Sourcetable.FromLines scanFloat this)
    (hend : Sourcetable.endMark ∉ crlfLines this.header) (hnul : 0 ∉ this.text)
    (hempty : t.contents = Sourcetable.Contents.empty) :
    ∃ (lines : List CString) (that : Sourcetable F),
      this.text = (writeLines lines).flatten ++ (Sourcetable.endMark ++ crlf) ∧
      (∀ line ∈ lines, LF ∉ line) ∧ (∀ line ∈ lines, 0 ∉ line) ∧ Sourcetable.endMark ∉ lines ∧
      lines.foldlM (fun t line => t.addUnlocked scanFloat line true) t = some that ∧
      that.contents = this.contents := by
  obtain ⟨added, hadded⟩ := hthis.exists_added
  rw [hadded.headerLines] at hend
  obtain ⟨that, hadd, hcontents⟩ := hadded.foldlM_addUnlocked hempty
  have htext : this.text =
      (writeLines (added.filter Sourcetable.isHeader ++ this.values)).flatten ++
        (Sourcetable.endMark ++ crlf) := by
    rw [Sourcetable.text, hadded.header, ← Sourcetable.joinLines_append, joinLines_eq]
  refine ⟨_, that, htext, fun line hline => ?_, fun line hline hmem => hnul ?_, ?_, hadd, hcontents⟩
  · rcases List.mem_append.mp hline with hline | hline
    · exact hadded.lf line (List.mem_of_mem_filter hline)
    · exact hadded.lf line (List.mem_of_mem_filter (hadded.values_perm.subset hline))
  · rw [htext]
    refine List.mem_append_left _ (List.mem_flatten_of_mem (List.mem_map_of_mem hline) ?_)
    exact List.mem_append_left _ hmem
  · rw [List.mem_append, not_or]
    exact ⟨hend, hadded.endMark_not_mem_values⟩

/-- **The table of another caster**: what `ntripsrv_send_sourcetable` writes of a table is read by a
fetcher, in any pieces, to the same table, which it puts into the stack. The session ends there: it
has left its task, and `end_cb` was called for it once. -/
theorem table_fetched {W G : Type} {this : Sourcetable F} {c : Ntripsrv.Caster W G}
    {srv : Ntripsrv.Server W G} {date : CString}
    (hthis : Sourcetable.FromLines env.scanFloat this)
    (hend : Sourcetable.endMark ∉ crlfLines this.header) (hnul : 0 ∉ this.text)
    (hget : c.sourcetableGet srv.w = this.get.map Prod.fst) (h : Fetches i new args t s)
    (hstate : (s.heap i).state = .waitHttpStatus) (hempty : t.contents = Sourcetable.Contents.empty)
    (hfits : ReplyFits env date)
    (hlen : this.text.length ≤ env.config.httpContentLengthMax ∧ this.text.length ≤ SIZE_MAX) :
    ∃ (r : Ntripsrv.Reply) (s' : Client F) (that : Sourcetable F),
      sendSourcetable c srv = (srv.record (.reply r), 0) ∧
      (∀ reads : List (List Byte), reads.flatten = replyText date r →
        readAll threads env i s reads = some s') ∧
      s'.task.owner = .sourcetableFetcher new (finished env args that) ∧
      that.header = this.header ∧
      (∀ key, (that.keyVal.get key).map (·.value) = (this.keyVal.get key).map (·.value)) ∧
      s'.task.st = none ∧ (s'.heap i).Gone := by
  obtain ⟨lines, that, htext, hlf, hzero, hnot, hadd, hcontents⟩ :=
    exists_tableLines hthis hend hnul hempty
  obtain ⟨firstword, mimeType, keepAlive, hword, hmime, hsend⟩ := exists_sendSourcetable
    (hget.trans (congrArg (Option.map Prod.fst) this.get_eq))
  have htaken : ∀ header ∈ replyHeaders date (some ⟨some mimeType, this.text⟩) keepAlive [],
      Taken env header := by
    refine hfits.taken ?_ ?_
    · rintro content ⟨⟩ mimeType ⟨⟩
      exact hmime
    · rintro content ⟨⟩
      exact hlen
  have hmax : 64 < env.config.httpHeaderMaxSize :=
    (Nat.le_add_left 64 date.length).trans_lt hfits.len
  obtain ⟨s₁, hhead, h₁, hstate₁⟩ := exists_serveLines_head h hstate hword hmax htaken
    (by rintro content ⟨⟩; exact hlen.2)
  obtain ⟨s₂, hrun, h₂, hstate₂⟩ := exists_serveLines_add h₁ hstate₁ hlf hzero hnot hadd
  obtain ⟨s₃, s', hout, hclose, howner, hst, hgone⟩ := exists_lastLine env h₂ hstate₂
  generalize hhead₁ : headLines date firstword (some ⟨some mimeType, this.text⟩) keepAlive = head
    at hhead
  have hlf₁ : ∀ line ∈ head, LF ∉ line := hhead₁ ▸ not_mem_headLines hword htaken
  have hall : (head ++ lines).foldlM (serveLine env i) s = some s₂ := by
    rw [List.foldlM_append, hhead]
    exact hrun
  have hread :
      ReadsTo (feed threads env i) some (fun _ => True) s (writeLines (head ++ lines)) s₂ :=
    (readsTo_lines h.ready (fun line hline =>
      (List.mem_append.mp hline).elim (hlf₁ line) (hlf line)) hall).1
  have hstop : feed threads env i s' [] = some s' := by
    rw [feed, step, callback, if_pos (.inr (.inl hgone.refcnt))]
  have hlast : ReadsTo.Last (feed threads env i) (Sourcetable.endMark ++ crlf)
      (fun p => s₂.atLine i p) s' :=
    last_line h₂.ready (by rw [hstate₂]; rfl) (by decide) (.inl hstate₂) hout hclose hstop
  refine ⟨_, s', that, hsend, fun reads hreads => ?_, howner, congrArg Sourcetable.Contents.header
    hcontents, fun key => congrFun (congrArg Sourcetable.Contents.line hcontents) key, hst, hgone⟩
  refine hread.pieces_last hlast ?_
  have hreply : replyText date (.server firstword 200 (cstr "OK")
      (some ⟨some mimeType, this.text⟩) keepAlive []) = (writeLines head).flatten ++ this.text := by
    rw [← hhead₁]
    rfl
  rw [hreads, hreply, htext, writeLines, writeLines, writeLines, List.map_append,
    List.flatten_append, List.append_assoc]

/-! ### A small table -/

/-- The surroundings of a fetcher. -/
def fetchEnv : Env ℤ where
  config := ⟨4096, 4096, 3600⟩
  time := 0
  timeOfDay := ⟨0, 0⟩
  scanFloat := strtoll
  text := fun _ => []
  checkserial := .new (cstr "[]")
  full := .new (cstr "\x7b\x7d")
  sendSubscribers := fun _ => false
  pullable := true

/-- The table that it fills. -/
def fetchTable : Sourcetable ℤ := .new (some (cstr "node")) 2101 false

/-- A fetcher that has connected. -/
def fetcher : Client ℤ :=
  let s : Client ℤ := .new (.sourcetableFetcher fetchTable ⟨none, .null, .null, [], []⟩) 0 0 0
  ([(fetchEnv, .start), (fetchEnv, .event 0 true)].foldlM (step false) s).getD s

/-- A table with one mountpoint. -/
theorem table_fetched_fetcher :
    ∃ (this that : Sourcetable ℤ) (r : Ntripsrv.Reply) (s' : Client ℤ),
      this.values = [Stack.baseLine "5"] ∧
      (∀ reads : List (List Byte), reads.flatten = replyText (cstr "now") r →
        readAll false fetchEnv 0 fetcher reads = some s') ∧
      s'.task.owner = .sourcetableFetcher fetchTable
        (finished fetchEnv ⟨none, .null, .null, [], []⟩ that) ∧
      that.header = this.header ∧ (s'.heap 0).Gone := by
  have hobserve : ((Sourcetable.new none 0 false : Sourcetable ℤ).addUnlocked strtoll
      (Stack.baseLine "5") true).isSome = true := by decide +kernel
  obtain ⟨this, hadd⟩ := Option.isSome_iff_exists.mp hobserve
  obtain ⟨hcr, hlf, hhead, hbody, hnul, hlen⟩ : CR ∉ Stack.baseLine "5" ∧
      LF ∉ Stack.baseLine "5" ∧
      [Stack.baseLine "5"].filter Sourcetable.isHeader = [] ∧
      ([Stack.baseLine "5"].filter fun line => !Sourcetable.isHeader line) =
        [Stack.baseLine "5"] ∧
      0 ∉ Sourcetable.joinLines [Stack.baseLine "5", Sourcetable.endMark] ∧
      (Sourcetable.joinLines [Stack.baseLine "5", Sourcetable.endMark]).length ≤
        4096 := by
    decide
  have hlines : this.Added strtoll [Stack.baseLine "5"] :=
    (Sourcetable.added_nil rfl rfl).addUnlocked hlf hadd
  have hheader : this.header = [] := by
    rw [hlines.header, hhead]
    rfl
  have hvalues : this.values = [Stack.baseLine "5"] :=
    List.perm_singleton.mp (hbody ▸ hlines.values_perm)
  have htext : this.text =
      Sourcetable.joinLines [Stack.baseLine "5", Sourcetable.endMark] := by
    rw [Sourcetable.text, hheader, hvalues]
    rfl
  have howner : fetcher.task.owner = .sourcetableFetcher fetchTable
      ⟨some fetchTable, .null, .null, [], []⟩ := rfl
  have hlive : Live 0 fetcher := by
    have hnext : fetcher.next = 1 := rfl
    refine ⟨⟨hnext ▸ Nat.one_pos, ?_, ⟨false, rfl⟩, rfl, rfl, rfl, fun j hj hne => ?_⟩,
      fun mountpoint persistent hown => ?_, fun new args hown => ?_⟩
    · exact show SessionState.waitHttpStatus ≠ .ntripEnd by decide
    · omega
    · rw [howner] at hown
      cases hown
    · rw [howner] at hown
      obtain ⟨rfl, rfl⟩ := TaskOwner.sourcetableFetcher.inj hown
      rfl
  have hfetches : Fetches 0 fetchTable ⟨some fetchTable, .null, .null, [], []⟩ fetchTable fetcher :=
    ⟨⟨hlive, ⟨rfl, rfl, rfl, rfl⟩⟩, howner, rfl, rfl, rfl⟩
  have hend : Sourcetable.endMark ∉ crlfLines this.header := by
    rw [hheader, crlfLines_nil]
    exact List.not_mem_nil
  have hfits : ReplyFits fetchEnv (cstr "now") := by
    have hdate : Clean (cstr "now") ∧ (cstr "now").length + 64 < 4096 := by decide
    exact ⟨hdate.1, hdate.2⟩
  let c : Ntripsrv.Caster Unit Unit :=
    { Ntripsrv.smallCaster false with sourcetableGet := fun _ => this.get.map Prod.fst }
  obtain ⟨r, s', that, -, hread, hown, hheader', -, -, hgone⟩ :=
    @table_fetched ℤ _ fetchEnv 0 false _ _ _ Unit Unit this c Ntripsrv.smallServer (cstr "now")
      (.add (.new none 0 false) hcr hlf hadd) hend (htext ▸ hnul) rfl hfetches rfl
      (Sourcetable.contents_of_empty rfl rfl) hfits
      (htext ▸ ⟨hlen, hlen.trans (by decide)⟩)
  exact ⟨this, that, r, s', hvalues, hread, hown, hheader', hgone⟩

end Client

end Ntripcli

end ChilopodCaster
