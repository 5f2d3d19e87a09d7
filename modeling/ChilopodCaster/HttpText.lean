import ChilopodCaster.Decimal
import ChilopodCaster.Http
import ChilopodCaster.JsonText
import ChilopodCaster.Lib.Pieces

/-!
# The text of requests

A client session writes a request line, a few headers of its own, the headers of its task, and an
empty line (`ntripcli_http_request_str`). What is written line by line is read line by line: each
line is taken off the input as it was written, whatever follows it, the request line splits into its
three arguments, and a header line into its key and its value.

## Main definitions

* `evhttpAddHeader` — `evhttp_add_header` of libevent
* `RequestText` — a request, with its lines and its content
* `Ntripcli.httpRequestStr` — `ntripcli_http_request_str`

## Main results

* `readlnCrlf_line`, `parseHeader_headerText`, `splitArgs_requestLine` — what is read of a line
* `Ntripcli.httpRequestStr_eq` — what the client writes is the head of a request
* `Ntripcli.length_httpRequestStr` — it fits the buffer it is written to
-/

namespace ChilopodCaster

/-! ### Headers -/

/-- `struct evkeyvalq`: the headers of a request or a reply, in order. -/
abbrev Evkeyvalq := List (CString × CString)

/-- `evhttp_header_is_valid_value` of libevent: an end of a line is followed by a blank. -/
def headerIsValidValue : CString → Bool
  | [] => true
  | c :: s =>
    (if c = CR ∨ c = LF then s.head?.any fun d => d = CR ∨ d = LF ∨ isblank d else true) &&
      headerIsValidValue s

/-- `evhttp_add_header` of libevent. -/
def evhttpAddHeader (headers : Evkeyvalq) (key value : CString) : Option Evkeyvalq :=
  if CR ∈ key ∨ LF ∈ key ∨ headerIsValidValue value = false then none
  else some (headers ++ [(key, value)])

/-- A header line, without its end: the key, a colon, a blank and the value. -/
def headerText (header : CString × CString) : CString := header.1 ++ [58, 32] ++ header.2

/-- Lines as they are written. -/
def writeLines (ls : List (List Byte)) : List (List Byte) := ls.map (· ++ crlf)

/-- A value that a header line gives back: it has no end of a line in it, and no blank at either
end. -/
structure Clean (value : CString) : Prop where
  plain : ∀ c ∈ value, c ≠ 0 ∧ c ≠ CR ∧ c ≠ LF
  head : ∀ c ∈ value.head?, isblank c = false
  last : ∀ c ∈ value.getLast?, isblank c = false

/-- A property of each byte of a text, as the kernel evaluates it fast. -/
theorem forall_of_all {p : Byte → Prop} [DecidablePred p] {s : CString}
    (h : (s.all fun c => decide (p c)) = true) : ∀ c ∈ s, p c :=
  fun c hc => of_decide_eq_true (List.all_eq_true.mp h c hc)

theorem all_of_forall {p : Byte → Prop} [DecidablePred p] {s : CString} (h : ∀ c ∈ s, p c) :
    (s.all fun c => decide (p c)) = true :=
  List.all_eq_true.mpr fun c hc => decide_eq_true (h c hc)

instance (value : CString) : Decidable (Clean value) :=
  decidable_of_iff ((value.all fun c => decide (c ≠ 0 ∧ c ≠ CR ∧ c ≠ LF)) = true ∧
      (∀ c ∈ value.head?, isblank c = false) ∧ ∀ c ∈ value.getLast?, isblank c = false)
    ⟨fun h => ⟨forall_of_all h.1, h.2.1, h.2.2⟩, fun h => ⟨all_of_forall h.plain, h.head, h.last⟩⟩

/-- An argument of a request line. -/
def IsArg (s : CString) : Prop := ∀ c ∈ s, c ≠ 0 ∧ c ≠ CR ∧ c ≠ LF ∧ isblank c = false

instance (s : CString) : Decidable (IsArg s) :=
  decidable_of_iff
    ((s.all fun c => decide (c ≠ 0 ∧ c ≠ CR ∧ c ≠ LF ∧ isblank c = false)) = true)
    ⟨forall_of_all, all_of_forall⟩

theorem headerIsValidValue_of_plain {value : CString} (h : ∀ c ∈ value, c ≠ CR ∧ c ≠ LF) :
    headerIsValidValue value = true := by
  induction value with
  | nil => rfl
  | cons c value ih =>
    have hc : ¬(c = CR ∨ c = LF) := not_or.mpr (h c List.mem_cons_self)
    rw [headerIsValidValue, if_neg hc, ih fun d hd => h d (List.mem_cons_of_mem _ hd)]
    rfl

theorem evhttpAddHeader_of_plain {headers : Evkeyvalq} {key value : CString}
    (hkey : ∀ c ∈ key, c ≠ CR ∧ c ≠ LF) (hvalue : ∀ c ∈ value, c ≠ CR ∧ c ≠ LF) :
    evhttpAddHeader headers key value = some (headers ++ [(key, value)]) := by
  rw [evhttpAddHeader, if_neg]
  rintro (h | h | h)
  · exact (hkey _ h).1 rfl
  · exact (hkey _ h).2 rfl
  · rw [headerIsValidValue_of_plain hvalue] at h
    contradiction

/-! ### Reading what was written -/

/-- A line is taken off the input as it was written. -/
theorem readlnCrlf_line {line : List Byte} (h : LF ∉ line) (rest : List Byte) :
    evbufferReadlnCrlf (line ++ crlf ++ rest) = some (line, rest) := by
  have hcr : ∀ c ∈ line ++ [CR], decide (c ≠ LF) = true := by
    intro c hc
    rw [decide_eq_true_iff]
    rintro rfl
    rcases List.mem_append.mp hc with hc | hc
    · exact h hc
    · simp at hc
  have hsplit : line ++ crlf ++ rest = (line ++ [CR]) ++ LF :: rest := by simp
  rw [evbufferReadlnCrlf, if_pos (by simp), hsplit,
    List.takeWhile_append_of_pos hcr, List.dropWhile_append_of_pos hcr]
  simp [chopCr]

/-- What there is of a line, before all of it is. -/
theorem not_mem_of_part {line p q : List Byte} (hline : LF ∉ line) (hq : q ≠ [])
    (h : p ++ q = line ++ crlf) : LF ∉ p ∧ p.length ≤ line.length + 1 := by
  have hlen := Pieces.length_lt_of_part hq h
  rw [List.length_append] at hlen
  have hle : p.length ≤ (line ++ [CR]).length := by
    rw [List.length_append]
    exact Nat.le_of_lt_succ hlen
  have hsplit : p ++ q = (line ++ [CR]) ++ [LF] := by rw [h]; simp
  have hp : p <+: line ++ [CR] := List.prefix_of_prefix_length_le ⟨q, h⟩ ⟨[LF], by simp⟩ hle
  refine ⟨fun hmem => ?_, hle.trans (by simp)⟩
  rcases List.mem_append.mp (hp.subset hmem) with hmem | hmem
  · exact hline hmem
  · simp at hmem

theorem rdropWhile_of_getLast? {p : Byte → Bool} {s : List Byte}
    (h : ∀ c ∈ s.getLast?, p c = false) : s.rdropWhile p = s := by
  induction s using List.reverseRecOn with
  | nil => rfl
  | append_singleton s c _ =>
    rw [List.rdropWhile_concat_neg _ _ _ (by simp [h c (by simp)])]

/-- A header line gives its key and its value back. -/
theorem parseHeader_headerText {header : CString × CString} (hkey : 58 ∉ header.1 ∧ 0 ∉ header.1)
    (hvalue : Clean header.2) : parseHeader (toCString (headerText header)) = some header := by
  obtain ⟨key, value⟩ := header
  have hnul : (0 : Byte) ∉ headerText (key, value) := by
    rw [headerText]
    simp only [List.mem_append, not_or]
    exact ⟨⟨hkey.2, by decide⟩, fun h => (hvalue.plain 0 h).1 rfl⟩
  have hcolon : ∀ c ∈ key, decide (c ≠ 58) = true := by
    intro c hc
    rw [decide_eq_true_iff]
    rintro rfl
    exact hkey.1 hc
  have hsplit : headerText (key, value) = key ++ 58 :: 32 :: value := by simp [headerText]
  have htrim : value.dropWhile isblank = value := by
    cases value with
    | nil => rfl
    | cons c value => simp [hvalue.head c (by simp)]
  have hblank : (32 :: value).dropWhile isblank = value := by
    rw [List.dropWhile_cons, if_pos (by decide), htrim]
  rw [toCString_of_not_mem hnul, parseHeader, hsplit, if_pos (by simp),
    List.takeWhile_append_of_pos hcolon, List.dropWhile_append_of_pos hcolon,
    List.takeWhile_cons_of_neg (by simp), List.append_nil, List.dropWhile_cons_of_neg (by simp),
    List.tail_cons, hblank, rdropWhile_of_getLast? hvalue.last]

/-- A request line splits into its arguments. -/
theorem splitArgs_requestLine {method uri version : CString} (hmethod : IsArg method)
    (huri : IsArg uri) (hversion : IsArg version) :
    splitArgs (toCString (method ++ [32] ++ uri ++ [32] ++ version)) = [method, uri, version] := by
  have hblank {s : CString} (h : IsArg s) : ∀ c ∈ s, decide (c = 32 ∨ c = 9) = false :=
    fun c hc => (h c hc).2.2.2
  have hnul : (0 : Byte) ∉ method ++ [32] ++ uri ++ [32] ++ version := by
    simp only [List.mem_append, not_or]
    exact ⟨⟨⟨⟨fun h => (hmethod 0 h).1 rfl, by decide⟩, fun h => (huri 0 h).1 rfl⟩, by decide⟩,
      fun h => (hversion 0 h).1 rfl⟩
  rw [toCString_of_not_mem hnul, splitArgs]
  have hsplit : method ++ [32] ++ uri ++ [32] ++ version =
      method ++ 32 :: (uri ++ 32 :: version) := by simp
  rw [hsplit, List.splitOnP_append_cons_of_forall_mem (hblank hmethod) 32 (by decide),
    List.splitOnP_append_cons_of_forall_mem (hblank huri) 32 (by decide),
    List.splitOnP_eq_singleton (hblank hversion)]

/-! ### Requests -/

/-- A request: the words of the request line, the headers, and the content that follows them. -/
structure RequestText where
  method : CString
  uri : CString
  version : CString
  headers : Evkeyvalq
  content : List Byte
  deriving DecidableEq, Repr

namespace RequestText

/-- The request line. -/
def requestLine (r : RequestText) : CString := r.method ++ [32] ++ r.uri ++ [32] ++ r.version

/-- The lines before the empty line. -/
def lines (r : RequestText) : List CString := r.requestLine :: r.headers.map headerText

/-- What is read at once: each line, and the content. -/
def units (r : RequestText) : List (List Byte) :=
  writeLines (r.lines ++ [[]]) ++ if r.content = [] then [] else [r.content]

/-- What is sent. -/
def text (r : RequestText) : List Byte := r.units.flatten

/-- A request whose parts can be told apart, with lines that are not too long. -/
structure WellFormed (maxSize : ℕ) (r : RequestText) : Prop where
  method : IsArg r.method
  uri : IsArg r.uri
  version : IsArg r.version
  key : ∀ header ∈ r.headers, ∀ c ∈ header.1, c ≠ 58 ∧ c ≠ 0 ∧ c ≠ CR ∧ c ≠ LF
  value : ∀ header ∈ r.headers, Clean header.2
  short : ∀ line ∈ r.lines, line.length < maxSize

instance (maxSize : ℕ) (r : RequestText) : Decidable (r.WellFormed maxSize) :=
  decidable_of_iff (IsArg r.method ∧ IsArg r.uri ∧ IsArg r.version ∧
      (∀ header ∈ r.headers, (header.1.all fun c =>
        decide (c ≠ 58 ∧ c ≠ 0 ∧ c ≠ CR ∧ c ≠ LF)) = true) ∧
      (∀ header ∈ r.headers, Clean header.2) ∧ ∀ line ∈ r.lines, line.length < maxSize)
    ⟨fun h => ⟨h.1, h.2.1, h.2.2.1, fun header hheader => forall_of_all (h.2.2.2.1 header hheader),
      h.2.2.2.2.1, h.2.2.2.2.2⟩,
      fun h => ⟨h.method, h.uri, h.version, fun header hheader =>
        all_of_forall (h.key header hheader), h.value, h.short⟩⟩

theorem lf_not_mem_requestLine {maxSize : ℕ} {r : RequestText} (h : r.WellFormed maxSize) :
    LF ∉ r.requestLine := by
  rw [requestLine]
  simp only [List.mem_append, not_or]
  exact ⟨⟨⟨⟨fun hc => (h.method _ hc).2.2.1 rfl, by decide⟩, fun hc => (h.uri _ hc).2.2.1 rfl⟩,
    by decide⟩, fun hc => (h.version _ hc).2.2.1 rfl⟩

theorem lf_not_mem_headerText {maxSize : ℕ} {r : RequestText} (h : r.WellFormed maxSize)
    {header : CString × CString} (hheader : header ∈ r.headers) : LF ∉ headerText header := by
  rw [headerText]
  simp only [List.mem_append, not_or]
  exact ⟨⟨fun hc => (h.key header hheader _ hc).2.2.2 rfl, by decide⟩,
    fun hc => ((h.value header hheader).plain _ hc).2.2 rfl⟩

theorem text_eq (r : RequestText) :
    r.text = (writeLines (r.lines ++ [[]])).flatten ++ r.content := by
  rw [text, units, List.flatten_append]
  split
  · next h => simp [h]
  · simp

theorem text_ne_nil (r : RequestText) : r.text ≠ [] := by
  rw [text_eq]
  simp [writeLines, lines]

end RequestText

/-! ### Numbers in headers -/

/-- A length that is printed is read back. -/
theorem sscanfLu_printNat {n : ℕ} (h : n ≤ SIZE_MAX) : sscanfLu (printNat 10 n) = some n := by
  have hne : printNat 10 n ≠ [] := by
    rw [printNat_eq]
    split <;> simp
  have hdigits : ∀ c ∈ printNat 10 n, isdigit c = true := isdigit_printNat
  have hvalue := decValue_printNat n
  generalize printNat 10 n = s at hne hdigits hvalue
  obtain ⟨c, s, rfl⟩ := List.exists_cons_of_ne_nil hne
  have hc := hdigits c List.mem_cons_self
  have hspace : (c :: s).dropWhile isspace = c :: s := by
    rw [List.dropWhile_cons, if_neg (by rw [isspace_of_isdigit hc]; exact Bool.false_ne_true)]
  have hsign (d : Byte) (hd : c ≠ d) : (c :: s).head? ≠ some d :=
    fun heq => hd (Option.some.inj heq)
  have hminus := hsign 45 (ne_sign_of_isdigit hc).1
  have hplus := hsign 43 (ne_sign_of_isdigit hc).2
  have htake : (c :: s).takeWhile isdigit = c :: s := List.takeWhile_eq_self_iff.mpr hdigits
  rw [sscanfLu, hspace, if_neg (not_or.mpr ⟨hminus, hplus⟩), htake, if_neg hne, hvalue,
    if_neg (by omega), if_neg hminus]

theorem clean_of_isArg {value : CString} (h : IsArg value) : Clean value where
  plain c hc := ⟨(h c hc).1, (h c hc).2.1, (h c hc).2.2.1⟩
  head c hc := (h c (List.mem_of_mem_head? hc)).2.2.2
  last c hc := (h c (List.mem_of_getLast? hc)).2.2.2

theorem isArg_of_isdigit {value : CString} (h : ∀ c ∈ value, isdigit c = true) : IsArg value := by
  have hall : ∀ c : Byte, isdigit c = true → c ≠ 0 ∧ c ≠ CR ∧ c ≠ LF ∧ isblank c = false := by
    decide
  exact fun c hc => hall c (h c hc)

theorem isArg_append {s t : CString} (hs : IsArg s) (ht : IsArg t) : IsArg (s ++ t) :=
  fun c hc => (List.mem_append.mp hc).elim (hs c) (ht c)

/-! ### The requests of a client session -/

/-- `host_port_str`. -/
def hostPortStr (host : CString) (port : BitVec 16) : CString :=
  if 58 ∈ host then [91] ++ host ++ [93, 58] ++ printNat 10 port.toNat
  else host ++ [58] ++ printNat 10 port.toNat

theorem isArg_hostPortStr {host : CString} (h : IsArg host) (port : BitVec 16) :
    IsArg (hostPortStr host port) := by
  have hport : IsArg (printNat 10 port.toNat) := isArg_of_isdigit isdigit_printNat
  rw [hostPortStr]
  split
  · exact isArg_append (isArg_append (isArg_append (by decide) h) (by decide)) hport
  · exact isArg_append (isArg_append h (by decide)) hport

namespace Ntripcli

/-- `client_user_agent`. -/
def clientUserAgent : CString := cstr "NTRIP Chilopod Client 0.8.1"

/-- `client_ntrip_version`. -/
def clientNtripVersion : CString := cstr "Ntrip/2.0"

/-- What `ntripcli_http_request_str` reads of a `struct mime_content`. -/
structure RequestContent where
  len : ℕ
  mimeType : CString
  deriving DecidableEq, Repr

/-- What `ntripcli_http_request_str` is given, and what it reads of the session and of its task. -/
structure HttpRequest where
  method : CString
  host : CString
  port : BitVec 16
  uri : CString
  version : ℕ
  m : Option RequestContent
  connectionKeepalive : Bool
  taskHeaders : Evkeyvalq
  deriving DecidableEq, Repr

namespace HttpRequest

/-- `content_len_str`: a length that is printed as a `long long`, into 20 bytes. -/
def contentLenStr (r : HttpRequest) : CString :=
  (Json.printInt (BitVec.ofNat 64 ((r.m.map RequestContent.len).getD 0)).toInt).take 19

/-- The headers that every request has. -/
def ownHeaders (r : HttpRequest) : Option Evkeyvalq := do
  let headers ← evhttpAddHeader [] (cstr "Host") (hostPortStr r.host r.port)
  let headers ← evhttpAddHeader headers (cstr "User-Agent") clientUserAgent
  let headers ← evhttpAddHeader headers (cstr "Content-Length") r.contentLenStr
  let headers ← match r.m with
    | some m => evhttpAddHeader headers (cstr "Content-Type") m.mimeType
    | none => some headers
  let headers ← evhttpAddHeader headers (cstr "Connection")
    (if r.connectionKeepalive then cstr "keep-alive" else cstr "close")
  if r.version = 2 then evhttpAddHeader headers (cstr "Ntrip-Version") clientNtripVersion
  else some headers

/-- A length that fits a `long long` is printed whole. -/
theorem contentLenStr_eq {r : HttpRequest} {m : RequestContent} (hm : r.m = some m)
    (h : m.len < 2 ^ 63) : r.contentLenStr = printNat 10 m.len := by
  have hint : (BitVec.ofNat 64 m.len).toInt = m.len := by
    rw [BitVec.toInt_eq_toNat_of_lt (by rw [BitVec.toNat_ofNat]; omega), BitVec.toNat_ofNat,
      Nat.mod_eq_of_lt (by omega)]
  have hlen : (printNat 10 m.len).length ≤ 19 := (length_printNat_le (by decide)).mpr (by omega)
  rw [contentLenStr, hm]
  show (Json.printInt (BitVec.ofNat 64 m.len).toInt).take 19 = _
  rw [hint, Json.printInt, if_neg (by omega), Int.natAbs_natCast, List.take_of_length_le hlen]

/-- The headers of a request with content, in the second version of the protocol. -/
theorem ownHeaders_eq {r : HttpRequest} {m : RequestContent} (hm : r.m = some m)
    (hlen : m.len < 2 ^ 63) (hversion : r.version = 2) (hhost : IsArg r.host)
    (htype : IsArg m.mimeType) :
    r.ownHeaders = some [(cstr "Host", hostPortStr r.host r.port),
      (cstr "User-Agent", clientUserAgent), (cstr "Content-Length", printNat 10 m.len),
      (cstr "Content-Type", m.mimeType),
      (cstr "Connection", if r.connectionKeepalive then cstr "keep-alive" else cstr "close"),
      (cstr "Ntrip-Version", clientNtripVersion)] := by
  have hplain {value : CString} (h : IsArg value) : ∀ c ∈ value, c ≠ CR ∧ c ≠ LF :=
    fun c hc => ⟨(h c hc).2.1, (h c hc).2.2.1⟩
  have hlength : IsArg (printNat 10 m.len) := isArg_of_isdigit isdigit_printNat
  have hconnection : IsArg (if r.connectionKeepalive then cstr "keep-alive" else cstr "close") := by
    split <;> decide
  have hagent : Clean clientUserAgent := by decide
  have hkey : ∀ key ∈ [cstr "Host", cstr "User-Agent", cstr "Content-Length", cstr "Content-Type",
    cstr "Connection", cstr "Ntrip-Version", clientNtripVersion], IsArg key := by decide
  simp only [List.forall_mem_cons] at hkey
  obtain ⟨h1, h2, h3, h4, h5, h6, h7, -⟩ := hkey
  rw [ownHeaders, hm, contentLenStr_eq hm hlen,
    evhttpAddHeader_of_plain (hplain h1) (hplain (isArg_hostPortStr hhost r.port))]
  simp only [Option.bind_eq_bind, Option.bind_some]
  rw [evhttpAddHeader_of_plain (hplain h2) fun c hc => (hagent.plain c hc).2, Option.bind_some,
    evhttpAddHeader_of_plain (hplain h3) (hplain hlength), Option.bind_some,
    evhttpAddHeader_of_plain (hplain h4) (hplain htype), Option.bind_some,
    evhttpAddHeader_of_plain (hplain h5) (hplain hconnection), Option.bind_some, if_pos hversion,
    evhttpAddHeader_of_plain (hplain h6) (hplain h7)]
  rfl

end HttpRequest

/-- `hlen`. -/
def headersLength (headers : Evkeyvalq) : ℕ :=
  (headers.map fun np => np.1.length + np.2.length + 4).sum

/-- The bytes allocated for a request; 14 is the length of the format. -/
def requestSize (r : HttpRequest) (headers : Evkeyvalq) : ℕ :=
  14 + r.method.length + r.uri.length + (headersLength headers + headersLength r.taskHeaders) + 2

/-- The loop that writes headers. -/
def writeHeaders (r : CString) (headers : Evkeyvalq) : CString :=
  headers.foldl (fun r np => r ++ np.1 ++ cstr ": " ++ np.2 ++ crlf) r

/-- `ntripcli_http_request_str`. -/
def httpRequestStr (r : HttpRequest) : Option CString :=
  r.ownHeaders.map fun headers =>
    let s := (r.method ++ cstr " " ++ r.uri ++ cstr " HTTP/1.1").take (requestSize r headers - 1)
    writeHeaders (writeHeaders (s ++ crlf) headers) r.taskHeaders ++ crlf

/-- The request that is sent, with its content. -/
def HttpRequest.sent (r : HttpRequest) (headers : Evkeyvalq) (content : List Byte) : RequestText :=
  ⟨r.method, r.uri, cstr "HTTP/1.1", headers ++ r.taskHeaders, content⟩

theorem writeHeaders_eq (r : CString) (headers : Evkeyvalq) :
    writeHeaders r headers = r ++ (writeLines (headers.map headerText)).flatten := by
  induction headers generalizing r with
  | nil => exact (List.append_nil r).symm
  | cons np headers ih =>
    have hsep : cstr ": " = [58, 32] := rfl
    rw [writeHeaders, List.foldl_cons, ← writeHeaders, ih]
    simp [writeLines, headerText, hsep]

theorem length_writeHeaders (r : CString) (headers : Evkeyvalq) :
    (writeHeaders r headers).length = r.length + headersLength headers := by
  induction headers generalizing r with
  | nil => rfl
  | cons np headers ih =>
    have hsep : (cstr ": ").length = 2 := rfl
    rw [writeHeaders, List.foldl_cons, ← writeHeaders, ih, headersLength, headersLength,
      List.map_cons, List.sum_cons]
    simp only [List.length_append, hsep, List.length_cons, List.length_nil]
    omega

/-- The request line is not cut. -/
theorem take_requestLine (r : HttpRequest) (headers : Evkeyvalq) :
    (r.method ++ cstr " " ++ r.uri ++ cstr " HTTP/1.1").take (requestSize r headers - 1) =
      r.method ++ cstr " " ++ r.uri ++ cstr " HTTP/1.1" := by
  have hspace : (cstr " ").length = 1 := rfl
  have hversion : (cstr " HTTP/1.1").length = 9 := rfl
  refine List.take_of_length_le ?_
  simp only [List.length_append, hspace, hversion, requestSize]
  omega

/-- **What the client writes** is the head of a request. -/
theorem httpRequestStr_eq {r : HttpRequest} {headers : Evkeyvalq} (h : r.ownHeaders = some headers)
    (content : List Byte) :
    ∃ head, httpRequestStr r = some head ∧ (r.sent headers content).text = head ++ content := by
  refine ⟨_, by rw [httpRequestStr, h, Option.map_some], ?_⟩
  have hversion : cstr " HTTP/1.1" = [32] ++ cstr "HTTP/1.1" := rfl
  have hspace : cstr " " = [32] := rfl
  dsimp only
  rw [RequestText.text_eq, take_requestLine, writeHeaders_eq, writeHeaders_eq, hversion, hspace]
  simp [RequestText.lines, RequestText.requestLine, HttpRequest.sent, writeLines]

/-- **The request fits** the bytes allocated for it, with its NUL, and leaves one. -/
theorem length_httpRequestStr {r : HttpRequest} {headers : Evkeyvalq} {head : CString}
    (h : r.ownHeaders = some headers) (hhead : httpRequestStr r = some head) :
    head.length + 2 = requestSize r headers := by
  have hspace : (cstr " ").length = 1 := rfl
  have hversion : (cstr " HTTP/1.1").length = 9 := rfl
  rw [httpRequestStr, h, Option.map_some, Option.some.injEq] at hhead
  dsimp only at hhead
  rw [← hhead, take_requestLine, List.length_append, length_writeHeaders,
    length_writeHeaders, requestSize]
  simp only [List.length_append, hspace, hversion, List.length_cons, List.length_nil]
  omega

end Ntripcli

end ChilopodCaster
