import ChilopodCaster.Hash
import Mathlib.Data.List.DropRight

/-!
# The syntax of HTTP requests and replies

What the caster reads of a request or a reply: lines, header lines, the `Authorization` header and
the arguments in URL encoding (`util.c`, `http.c` and `hash.c`). The string functions of the source
stop at a NUL, so the C string of a line with a NUL in it is shorter than the line.

## Main definitions

* `evbufferReadlnCrlf` — `evbuffer_readln` with `EVBUFFER_EOL_CRLF`
* `parseHeader` — `parse_header`
* `b64decode`, `httpDecodeAuth` — `http_decode_auth`
* `hashFromUrlencoding` — `hash_from_urlencoding`
-/

namespace ChilopodCaster

/-- The C string that starts with some bytes. -/
def toCString (s : List Byte) : CString := s.takeWhile (· ≠ 0)

theorem toCString_of_not_mem {s : List Byte} (h : 0 ∉ s) : toCString s = s := by
  rw [toCString, List.takeWhile_eq_self_iff]
  intro c hc
  rw [decide_eq_true_iff]
  rintro rfl
  exact h hc

theorem not_mem_toCString (s : List Byte) : 0 ∉ toCString s := by
  intro h
  have hne := List.mem_takeWhile_imp h
  rw [decide_eq_true_iff] at hne
  exact hne rfl

theorem mem_of_mem_toCString {c : Byte} {s : List Byte} (h : c ∈ toCString s) : c ∈ s :=
  (List.takeWhile_prefix _).subset h

theorem toCString_append_nul {s : List Byte} (h : 0 ∉ s) (r : List Byte) :
    toCString (s ++ 0 :: r) = s := by
  rw [toCString, List.takeWhile_append_of_pos, List.takeWhile_cons_of_neg (by decide),
    List.append_nil]
  intro c hc
  rw [decide_eq_true_iff]
  rintro rfl
  exact h hc

/-! ### Lines -/

/-- A line without the CR that may end it. -/
def chopCr (line : List Byte) : List Byte :=
  if line.getLast? = some CR then line.dropLast else line

/-- `evbuffer_readln(input, &len, EVBUFFER_EOL_CRLF)`: a line ends with LF, or CR LF. -/
def evbufferReadlnCrlf (buf : List Byte) : Option (List Byte × List Byte) :=
  if LF ∈ buf then
    some (chopCr (buf.takeWhile (· ≠ LF)), (buf.dropWhile (· ≠ LF)).tail)
  else none

variable {buf line rest : List Byte}

theorem evbufferReadlnCrlf_eq_none_iff : evbufferReadlnCrlf buf = none ↔ LF ∉ buf := by
  rw [evbufferReadlnCrlf]
  split <;> simp_all

theorem dropWhile_of_mem (h : LF ∈ buf) :
    ∃ rest, buf.dropWhile (· ≠ LF) = LF :: rest ∧
      buf = buf.takeWhile (· ≠ LF) ++ LF :: rest := by
  induction buf with
  | nil => contradiction
  | cons c buf ih =>
    by_cases hc : c = LF
    · exact ⟨buf, by simp [hc]⟩
    · obtain ⟨rest, hdrop, hbuf⟩ := ih ((List.mem_cons.mp h).resolve_left (Ne.symm hc))
      have hne : decide (c ≠ LF) = true := by simpa using hc
      refine ⟨rest, by rw [List.dropWhile_cons, if_pos hne, hdrop], ?_⟩
      rw [List.takeWhile_cons, if_pos hne, List.cons_append, ← hbuf]

theorem length_of_readlnCrlf (h : evbufferReadlnCrlf buf = some (line, rest)) :
    rest.length < buf.length := by
  rw [evbufferReadlnCrlf] at h
  split at h
  · next hmem =>
    obtain ⟨rest', hrest, hbuf⟩ := dropWhile_of_mem hmem
    obtain ⟨-, rfl⟩ := Prod.mk.inj (Option.some.inj h)
    rw [hrest]
    conv => rhs; rw [hbuf]
    simp
    omega
  · contradiction

/-- The arguments of a request line, or of a status line: `strsep` with a space or a tab. -/
def splitArgs (line : CString) : List CString := line.splitOnP fun c => c = 32 ∨ c = 9

/-- A space or a tab. -/
def isblank (c : Byte) : Bool := c = 32 ∨ c = 9

/-- `parse_header`: a key, a colon, and a value without the blanks around it. -/
def parseHeader (line : CString) : Option (CString × CString) :=
  if 58 ∈ line then
    some (line.takeWhile (· ≠ 58),
      ((line.dropWhile (· ≠ 58)).tail.dropWhile isblank).rdropWhile isblank)
  else none

/-- `sscanf(s, "%lu", &v)`. A number too large for an `unsigned long` is stored as the largest one,
and a minus sign negates modulo 2^64. -/
def sscanfLu (s : CString) : Option ℕ :=
  let s := s.dropWhile isspace
  let neg := s.head? = some 45
  let s := if s.head? = some 45 ∨ s.head? = some 43 then s.tail else s
  let digits := s.takeWhile isdigit
  if digits = [] then none
  else if decValue digits > SIZE_MAX then some SIZE_MAX
  else some (if neg then (2 ^ 64 - decValue digits) % 2 ^ 64 else decValue digits)

/-- `mystrcasestr`: whether a string contains another, without regard to case. -/
def mystrcasestr (s find : CString) : Bool :=
  s.tails.any fun t => (find.map tolower).isPrefixOf (t.map tolower)

/-! ### Authorization -/

/-- The value of a character of the base 64 alphabet. -/
def b64value (c : Byte) : Option ℕ :=
  let n := c.toNat
  if 65 ≤ n ∧ n ≤ 90 then some (n - 65)
  else if 97 ≤ n ∧ n ≤ 122 then some (n - 71)
  else if 48 ≤ n ∧ n ≤ 57 then some (n + 4)
  else if n = 43 then some 62
  else if n = 47 then some 63
  else none

/-- One round of the loop of `b64decode`, on the bits read, after a mark, and the bytes written. -/
def b64round (s : ℕ × List Byte) (c : Byte) : Option (ℕ × List Byte) :=
  (b64value c).map fun b6 =>
    let i := s.1 * 64 + b6
    if i / 0x1000000 % 2 = 1 then
      (1, s.2 ++ [BitVec.ofNat 8 (i / 65536), BitVec.ofNat 8 (i / 256), BitVec.ofNat 8 i])
    else (i, s.2)

/-- The text without the padding, of two characters at most. -/
def b64unpad (str : CString) : CString :=
  if str.getLast? = some 61 then
    if str.dropLast.getLast? = some 61 then str.dropLast.dropLast else str.dropLast
  else str

/-- `b64decode`. -/
def b64decode (str : CString) : Option (List Byte) :=
  if str.length % 4 ≠ 0 then none
  else ((b64unpad str).foldlM b64round (1, [])).map fun (i, r) =>
    if i / 0x40000 % 2 = 1 then r ++ [BitVec.ofNat 8 (i / 1024), BitVec.ofNat 8 (i / 4)]
    else if i / 0x1000 % 2 = 1 then r ++ [BitVec.ofNat 8 (i / 16)]
    else r

/-- What an `Authorization` header carries. -/
structure Credentials where
  schemeBasic : Bool
  user : CString
  password : CString
  deriving DecidableEq, Repr

/-- `http_decode_auth`. The token of the internal scheme is both the user and the password. -/
def httpDecodeAuth (value : CString) : Option Credentials :=
  let scheme := value.takeWhile (!isspace ·)
  match value.dropWhile (!isspace ·) with
  | [] => none
  | _ :: p =>
    let p := p.dropWhile isspace
    if strcasecmp scheme (cstr "Basic") = false then
      if p = [] then none
      else (b64decode p).bind fun auth =>
        let auth := toCString auth
        if 58 ∈ auth then
          some ⟨true, auth.takeWhile (· ≠ 58), (auth.dropWhile (· ≠ 58)).tail⟩
        else none
    else if strcasecmp scheme (cstr "internal") = false then
      if p = [] then none
      else
        let auth := p.takeWhile (!isspace ·)
        some ⟨false, auth, auth⟩
    else none

/-! ### URL encoding -/

/-- `urldecode`. -/
def urldecode : CString → CString
  | [] => []
  | 43 :: src => 32 :: urldecode src
  | 37 :: c :: d :: src =>
    match hexDigit c, hexDigit d with
    | some d1, some d2 => BitVec.ofNat 8 (d1 * 16 + d2) :: urldecode src
    | _, _ => 37 :: urldecode (c :: d :: src)
  | c :: src => c :: urldecode src

/-- A decoded string ends at its first NUL. -/
def urldecodeC (s : CString) : CString := toCString (urldecode s)

/-- The key and the value of one argument. -/
def keyval (s : CString) : CString × CString :=
  (urldecodeC (s.takeWhile (· ≠ 61)), urldecodeC (s.dropWhile (· ≠ 61)).tail)

theorem zero_lt_37 : 0 < 37 := by decide

/-- `hash_from_urlencoding`; a key given twice is an error. -/
def hashFromUrlencoding (urlencoding : Option CString) : Option (HashTable CString) :=
  match urlencoding with
  | none => some (.new 37 zero_lt_37)
  | some s =>
    (s.splitOnP fun c => c = 38 ∨ c = 59).foldlM
      (fun h arg => h.add (keyval arg).1 (keyval arg).2) (.new 37 zero_lt_37)

end ChilopodCaster
