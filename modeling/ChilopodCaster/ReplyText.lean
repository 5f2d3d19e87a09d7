import ChilopodCaster.ReplyRead
import ChilopodCaster.Server

/-!
# The text of replies

What `send_server_reply` writes, and what a client session of the same program reads of it.

## Main definitions

* `Ntripsrv.replyText` — `send_server_reply`
* `Ntripcli.Client.ReplyFits` — a client whose limits are no obstacle

## Main results

* `Ntripcli.Client.ReplyFits.taken` — the headers can be taken by such a client
* `Ntripcli.exists_replyHeaders` — the headers of a reply, as a client reads them
-/

namespace ChilopodCaster

namespace Ntripsrv

/-- `server_headers`, without its name. -/
def serverHeader : CString := cstr "NTRIP Chilopod Server 0.8.1"

/-- The first line of a reply. -/
def replyLine (firstword : CString) (statusCode : ℕ) (msg : CString) : CString :=
  firstword ++ [32] ++ printNat 10 statusCode ++ [32] ++ msg

/-- The headers of a reply, the last ones being those of its caller. -/
def replyHeaders (date : CString) (m : Option Content) (keepAlive : Bool)
    (headers : Evkeyvalq) : Evkeyvalq :=
  [(cstr "Server", serverHeader), (cstr "Date", date), (cstr "Ntrip-Version", cstr "Ntrip/2.0")] ++
    (match m with
    | none => []
    | some ⟨none, s⟩ => [(cstr "Content-Length", printNat 10 s.length)]
    | some ⟨some mimeType, s⟩ =>
      [(cstr "Content-Length", printNat 10 s.length), (cstr "Content-Type", mimeType)]) ++
    [(cstr "Connection", if keepAlive then cstr "keep-alive" else cstr "close")] ++ headers

/-- What is added to the output for a reply; `date` is the text of the time. -/
def replyText (date : CString) : Reply → List Byte
  | .server firstword statusCode msg m keepAlive headers =>
    (writeLines (replyLine firstword statusCode msg ::
      (replyHeaders date m keepAlive headers).map headerText ++ [[]])).flatten ++
      (m.map Content.s).getD []
  | .text s => s

end Ntripsrv

namespace Ntripcli

open Ntripsrv (replyHeaders replyLine serverHeader)

variable {F : Type} {env : Env F} {i : ℕ}

theorem taken_of_known {key value : CString} (hkey : key ∈ [cstr "Server", cstr "Date",
      cstr "Ntrip-Version", cstr "Content-Type", cstr "Connection"]) (hvalue : Clean value)
    (hshort : (headerText (key, value)).length < env.config.httpHeaderMaxSize) :
    Client.Taken env (key, value) := by
  have hkeys : ∀ key ∈ [cstr "Server", cstr "Date", cstr "Ntrip-Version", cstr "Content-Type",
      cstr "Connection"], (key.all fun c => decide (c ≠ 58 ∧ c ≠ 0 ∧ c ≠ CR ∧ c ≠ LF)) = true ∧
        strcasecmp key (cstr "transfer-encoding") = true ∧
        strcasecmp key (cstr "content-length") = true := by decide
  obtain ⟨hplain, hchunk, hlen⟩ := hkeys key hkey
  exact ⟨forall_of_all hplain, hvalue, hchunk, fun h => absurd (hlen.symm.trans h) (by decide),
    hshort⟩

theorem taken_contentLength {n : ℕ} (hmax : n ≤ env.config.httpContentLengthMax)
    (hn : n ≤ SIZE_MAX)
    (hshort : (headerText (cstr "Content-Length", printNat 10 n)).length <
      env.config.httpHeaderMaxSize) :
    Client.Taken env (cstr "Content-Length", printNat 10 n) where
  key := forall_of_all (show ((cstr "Content-Length").all fun c =>
    decide (c ≠ 58 ∧ c ≠ 0 ∧ c ≠ CR ∧ c ≠ LF)) = true by decide)
  value := clean_of_isArg (isArg_of_isdigit isdigit_printNat)
  unchunked := show strcasecmp (cstr "Content-Length") (cstr "transfer-encoding") = true by
    decide
  len := by
    intro _ n' hscan
    rw [show (cstr "Content-Length", printNat 10 n).2 = printNat 10 n from rfl,
      sscanfLu_printNat hn] at hscan
    rwa [← Option.some.inj hscan]
  short := hshort

theorem mem_replyHeaders {date : CString} {m : Option Ntripsrv.Content} {keepAlive : Bool}
    {header : CString × CString} (h : header ∈ replyHeaders date m keepAlive []) :
    header = (cstr "Server", serverHeader) ∨ header = (cstr "Date", date) ∨
      header = (cstr "Ntrip-Version", cstr "Ntrip/2.0") ∨
      header = (cstr "Connection", if keepAlive then cstr "keep-alive" else cstr "close") ∨
      (∃ content ∈ m, header = (cstr "Content-Length", printNat 10 content.s.length)) ∨
      ∃ content ∈ m, ∃ mimeType ∈ content.mimeType, header = (cstr "Content-Type", mimeType) := by
  unfold replyHeaders at h
  rw [List.append_nil] at h
  rcases List.mem_append.mp h with h | h
  · rcases List.mem_append.mp h with h | h
    · simp only [List.mem_cons, List.not_mem_nil, or_false] at h
      rcases h with h | h | h
      · exact .inl h
      · exact .inr (.inl h)
      · exact .inr (.inr (.inl h))
    · refine .inr (.inr (.inr (.inr ?_)))
      split at h
      · contradiction
      · exact .inl ⟨_, rfl, List.mem_singleton.mp h⟩
      · rcases List.mem_cons.mp h with h | h
        · exact .inl ⟨_, rfl, h⟩
        · exact .inr ⟨_, rfl, _, rfl, List.mem_singleton.mp h⟩
  · exact .inr (.inr (.inr (.inl (List.mem_singleton.mp h))))

/-- **The headers of a reply** can be taken by a client, if the content is not too long for it. -/
theorem taken_replyHeaders {date : CString} {m : Option Ntripsrv.Content} {keepAlive : Bool}
    (hdate : Clean date) (hmime : ∀ content ∈ m, ∀ mimeType ∈ content.mimeType, Clean mimeType)
    (hlen : ∀ content ∈ m, content.s.length ≤ env.config.httpContentLengthMax ∧
      content.s.length ≤ SIZE_MAX)
    (hshort : ∀ header ∈ replyHeaders date m keepAlive [],
      (headerText header).length < env.config.httpHeaderMaxSize) :
    ∀ header ∈ replyHeaders date m keepAlive [], Client.Taken env header := by
  have hconnection : Clean (if keepAlive then cstr "keep-alive" else cstr "close") := by
    cases keepAlive <;> decide
  have hserver : Clean serverHeader := by decide
  have hntrip : Clean (cstr "Ntrip/2.0") := by decide
  intro header hheader
  have hlt := hshort header hheader
  rcases mem_replyHeaders hheader with
    rfl | rfl | rfl | rfl | ⟨content, hm, rfl⟩ | ⟨content, hm, mimeType, ht, rfl⟩
  · exact taken_of_known (by simp) hserver hlt
  · exact taken_of_known (by simp) hdate hlt
  · exact taken_of_known (by simp) hntrip hlt
  · exact taken_of_known (by simp) hconnection hlt
  · exact taken_contentLength (hlen content hm).1 (hlen content hm).2 hlt
  · exact taken_of_known (by simp) (hmime content hm mimeType ht) hlt

/-- The header lines are short, if the date and the type of the content are. -/
theorem short_replyHeaders {date : CString} {m : Option Ntripsrv.Content} {keepAlive : Bool} {n : ℕ}
    (hdate : date.length + 64 < n)
    (hmime : ∀ content ∈ m, ∀ mimeType ∈ content.mimeType, mimeType.length ≤ 32)
    (hlen : ∀ content ∈ m, content.s.length ≤ SIZE_MAX) :
    ∀ header ∈ replyHeaders date m keepAlive [], (headerText header).length < n := by
  have hlength (header : CString × CString) :
      (headerText header).length = header.1.length + 2 + header.2.length := by
    rw [headerText, List.length_append, List.length_append]
    rfl
  obtain ⟨hserver, hntrip, hconnection⟩ : (headerText (cstr "Server", serverHeader)).length ≤ 64 ∧
      (headerText (cstr "Ntrip-Version", cstr "Ntrip/2.0")).length ≤ 64 ∧ ∀ keepAlive : Bool,
        (headerText (cstr "Connection",
          if keepAlive then cstr "keep-alive" else cstr "close")).length ≤ 64 := by
    decide
  obtain ⟨hd, hl, ht⟩ : (cstr "Date").length = 4 ∧ (cstr "Content-Length").length = 14 ∧
      (cstr "Content-Type").length = 12 := by decide
  intro header hheader
  rcases mem_replyHeaders hheader with
    rfl | rfl | rfl | rfl | ⟨content, hm, rfl⟩ | ⟨content, hm, mimeType, hmimeType, rfl⟩
  · omega
  · rw [hlength]
    dsimp only
    omega
  · omega
  · exact (hconnection keepAlive).trans_lt (by omega)
  · have hdigits : (printNat 10 content.s.length).length ≤ 20 :=
      (length_printNat_le (by decide)).mpr ((hlen content hm).trans_lt (by decide))
    rw [hlength]
    dsimp only
    omega
  · have hmax := hmime content hm mimeType hmimeType
    rw [hlength]
    dsimp only
    omega

theorem not_mem_headerText {header : CString × CString} (h : Client.Taken env header) :
    LF ∉ headerText header := by
  intro hmem
  rw [headerText] at hmem
  rcases List.mem_append.mp hmem with hmem | hmem
  · rcases List.mem_append.mp hmem with hmem | hmem
    · exact (h.key _ hmem).2.2.2 rfl
    · exact absurd hmem (by decide)
  · exact (h.value.plain _ hmem).2.2 rfl

/-- The lines of a reply fit the client. -/
structure Client.ReplyFits (env : Env F) (date : CString) : Prop where
  clean : Clean date
  len : date.length + 64 < env.config.httpHeaderMaxSize

/-- The headers of a reply that fits. -/
theorem Client.ReplyFits.taken {date : CString} {m : Option Ntripsrv.Content} {keepAlive : Bool}
    (hfits : Client.ReplyFits env date) (hmime : ∀ content ∈ m, ∀ mimeType ∈ content.mimeType,
      Clean mimeType ∧ mimeType.length ≤ 32)
    (hlen : ∀ content ∈ m, content.s.length ≤ env.config.httpContentLengthMax ∧
      content.s.length ≤ SIZE_MAX) :
    ∀ header ∈ replyHeaders date m keepAlive [], Client.Taken env header :=
  taken_replyHeaders hfits.clean (fun content hm mimeType ht => (hmime content hm mimeType ht).1)
    hlen (short_replyHeaders hfits.len
      (fun content hm mimeType ht => (hmime content hm mimeType ht).2)
      fun content hm => (hlen content hm).2)

/-! ### What the headers tell -/

/-- The bytes of a header line are counted. -/
def countHeader (header : CString × CString) (st : NtripState) : NtripState :=
  { st with receivedBytes := st.receivedBytes + (headerText header).length + 2 }

theorem readHeader_ignored {key : CString}
    (h : key ∈ [cstr "Server", cstr "Date", cstr "Ntrip-Version"]) (value : CString)
    (st : NtripState) : Client.readHeader st (key, value) = countHeader (key, value) st := by
  have hkeys : ∀ key ∈ [cstr "Server", cstr "Date", cstr "Ntrip-Version"],
      strcasecmp key (cstr "connection") = true ∧ strcasecmp key (cstr "content-length") = true ∧
        strcasecmp key (cstr "content-type") = true := by decide
  obtain ⟨h₁, h₂, h₃⟩ := hkeys key h
  rw [Client.readHeader, Client.headerUpdate, if_neg (not_not_intro h₁), if_neg (not_not_intro h₂),
    if_neg (not_not_intro h₃), countHeader]

theorem readHeader_connection (keepAlive : Bool) (st : NtripState) :
    Client.readHeader st
        (cstr "Connection", if keepAlive then cstr "keep-alive" else cstr "close") =
      let st := countHeader
        (cstr "Connection", if keepAlive then cstr "keep-alive" else cstr "close") st
      { st with receivedKeepalive := st.receivedKeepalive || keepAlive } := by
  have hkey : ¬ strcasecmp (cstr "Connection") (cstr "connection") = true := by decide
  rw [Client.readHeader, Client.headerUpdate, if_pos hkey]
  cases keepAlive with
  | false =>
    have hclose : ¬ ¬ strcasecmp (cstr "close") (cstr "keep-alive") = true := by decide
    refine (if_neg hclose).trans ?_
    simp [countHeader]
  | true =>
    have hkeep : ¬ strcasecmp (cstr "keep-alive") (cstr "keep-alive") = true := by decide
    refine (if_pos hkeep).trans ?_
    simp [countHeader]

theorem readHeader_contentLength {n : ℕ} (hn : n ≤ SIZE_MAX) (st : NtripState) :
    Client.readHeader st (cstr "Content-Length", printNat 10 n) =
      { countHeader (cstr "Content-Length", printNat 10 n) st with
        contentLength := n, contentDone := 0 } := by
  have hkeys : strcasecmp (cstr "Content-Length") (cstr "connection") = true ∧
      ¬ strcasecmp (cstr "Content-Length") (cstr "content-length") = true := by decide
  rw [Client.readHeader, Client.headerUpdate, if_neg (not_not_intro hkeys.1), if_pos hkeys.2,
    sscanfLu_printNat hn]
  rfl

theorem readHeader_contentType (mimeType : CString) (st : NtripState) :
    Client.readHeader st (cstr "Content-Type", mimeType) =
      { countHeader (cstr "Content-Type", mimeType) st with contentType := some mimeType } := by
  have hkeys : strcasecmp (cstr "Content-Type") (cstr "connection") = true ∧
      strcasecmp (cstr "Content-Type") (cstr "content-length") = true ∧
      ¬ strcasecmp (cstr "Content-Type") (cstr "content-type") = true := by decide
  rw [Client.readHeader, Client.headerUpdate, if_neg (not_not_intro hkeys.1),
    if_neg (not_not_intro hkeys.2.1), if_pos hkeys.2.2]
  rfl

/-- The fields that headers change. -/
def SameButHead (st st' : NtripState) : Prop :=
  st' = { st with
    receivedBytes := st'.receivedBytes
    contentLength := st'.contentLength
    contentDone := st'.contentDone
    contentType := st'.contentType
    receivedKeepalive := st'.receivedKeepalive }

theorem SameButHead.trans {st st' st'' : NtripState} (h : SameButHead st st')
    (h' : SameButHead st' st'') : SameButHead st st'' := by
  rw [SameButHead] at h ⊢
  rw [h', h]

theorem sameButHead_foldl (headers : Evkeyvalq) (st : NtripState) :
    SameButHead st (headers.foldl Client.readHeader st) := by
  induction headers generalizing st with
  | nil => rfl
  | cons header headers ih =>
    refine SameButHead.trans ?_ (ih _)
    rw [Client.readHeader, Client.headerUpdate]
    split
    · split <;> rfl
    · split
      · split <;> rfl
      · split <;> rfl

/-- What the client knows after the headers: whether the connection is kept, and how much content
there is. -/
theorem foldl_replyHeaders (date : CString) {m : Option Ntripsrv.Content} (keepAlive : Bool)
    (hlen : ∀ content ∈ m, content.s.length ≤ SIZE_MAX) {st : NtripState}
    (hkeep : st.receivedKeepalive = false) (hcontent : st.contentLength = 0) :
    ((replyHeaders date m keepAlive []).foldl Client.readHeader st).receivedKeepalive = keepAlive ∧
      ((replyHeaders date m keepAlive []).foldl Client.readHeader st).contentLength =
        (m.map fun content => content.s.length).getD 0 := by
  have hserver := @readHeader_ignored (cstr "Server") (by simp)
  have hdate := @readHeader_ignored (cstr "Date") (by simp)
  have hntrip := @readHeader_ignored (cstr "Ntrip-Version") (by simp)
  unfold replyHeaders
  simp only [List.append_nil, List.foldl_append, List.foldl_cons, List.foldl_nil, hserver, hdate,
    hntrip, readHeader_connection]
  rcases m with _ | ⟨_ | mimeType, s⟩
  · exact ⟨by simp [countHeader, hkeep], hcontent⟩
  · simp only [List.foldl_cons, List.foldl_nil, readHeader_contentLength (hlen _ rfl)]
    exact ⟨by simp [countHeader, hkeep], rfl⟩
  · simp only [List.foldl_cons, List.foldl_nil, readHeader_contentLength (hlen _ rfl),
      readHeader_contentType]
    exact ⟨by simp [countHeader, hkeep], rfl⟩

/-- What headers leave as it was. -/
theorem SameButHead.kept {st st' : NtripState} (h : SameButHead st st') :
    (Client.Plain st'.toSession ↔ Client.Plain st.toSession) ∧ st'.state = st.state ∧
      st'.mountpoint = st.mountpoint ∧ st'.connectionKeepalive = st.connectionKeepalive ∧
      st'.task = st.task := by
  rw [h]
  exact ⟨Iff.rfl, rfl, rfl, rfl, rfl⟩

/-- **The headers of a reply**, as a client reads them. -/
theorem exists_replyHeaders {s : Client F} {date : CString} {m : Option Ntripsrv.Content}
    {keepAlive : Bool} (hplain : Client.Plain (s.heap i).toSession)
    (hstate : (s.heap i).state = .waitHttpHeader)
    (htaken : ∀ header ∈ replyHeaders date m keepAlive [], Client.Taken env header)
    (hlen : ∀ content ∈ m, content.s.length ≤ SIZE_MAX)
    (hkeep : (s.heap i).receivedKeepalive = false) (hcontent : (s.heap i).contentLength = 0) :
    ∃ s', ((replyHeaders date m keepAlive []).map headerText).foldlM (Client.serveLine env i) s =
        some s' ∧ s'.task = s.task ∧ SameButHead (s.heap i) (s'.heap i) ∧
      (s'.heap i).receivedKeepalive = keepAlive ∧
      (s'.heap i).contentLength = (m.map fun content => content.s.length).getD 0 := by
  refine ⟨_, Client.foldlM_headers hplain hstate htaken, rfl, ?_⟩
  rw [Client.heap_modifySt_self]
  exact ⟨sameButHead_foldl _ _, foldl_replyHeaders date keepAlive hlen hkeep hcontent⟩

end Ntripcli

end ChilopodCaster
