import ChilopodCaster.Bytes
import Mathlib.Data.Vector.Defs

/-!
# IP addresses, prefixes and quotas

The addresses of `ip.c`. A socket address is its family and its address in network order; the port
is only logged, and is left out. Text is converted by `inet_pton` and `inet_ntop` of the C library,
in the way of glibc.

## Main definitions

* `Sock`, `ipStr`, `ipConvert` — addresses and their text
* `Prefix`, `ipInPrefix` — `ip_in_prefix`
* `PrefixTable`, `PrefixTable.getQuota` — `prefix_table_get_quota`
-/

namespace ChilopodCaster

/-- `union sock`. One that is zeroed out has no known family. -/
inductive Sock
  | unspec
  | inet (addr : Vector Byte 4)
  | inet6 (addr : Vector Byte 16)
  deriving DecidableEq, Repr

theorem size_quad (a b c d : Byte) : #[a, b, c, d].size = 4 := rfl

/-- The address `a.b.c.d`. -/
def Sock.quad (a b c d : Byte) : Sock := .inet ⟨#[a, b, c, d], size_quad a b c d⟩

/-- The bytes of the address. -/
def Sock.bytes : Sock → List Byte
  | .unspec => []
  | .inet addr => addr.toList
  | .inet6 addr => addr.toList

/-! ### Text to address -/

/-- A part of a dotted address: a decimal number up to 255, without leading zeros. -/
def inetPtonPart (part : CString) : Option Byte :=
  if part ≠ [] ∧ (∀ c ∈ part, isdigit c) ∧ (part.length = 1 ∨ part.head? ≠ some 48) ∧
      decValue part ≤ 255 then
    some (BitVec.ofNat 8 (decValue part))
  else none

/-- `inet_pton(AF_INET, src, &addr)`. -/
def inetPton4 (src : CString) : Option (Vector Byte 4) :=
  match src.splitOn 46 with
  | [a, b, c, d] => do
    return #v[← inetPtonPart a, ← inetPtonPart b, ← inetPtonPart c, ← inetPtonPart d]
  | _ => none

/-- The loop of `inet_pton6`: where the current token starts, the digits seen in it and their value,
the bytes written, and how many of them come before a `::`. -/
def inetPton6Loop (curtok : CString) (xdigitsSeen val : ℕ) (tp : List Byte) (colonp : Option ℕ) :
    CString → Option (List Byte × Option ℕ)
  | [] =>
    if xdigitsSeen = 0 then some (tp, colonp)
    else if 16 < tp.length + 2 then none
    else some (tp ++ [BitVec.ofNat 8 (val / 256), BitVec.ofNat 8 val], colonp)
  | ch :: src =>
    match hexDigit ch with
    | some digit =>
      if xdigitsSeen = 4 then none
      else inetPton6Loop curtok (xdigitsSeen + 1) (val * 16 + digit) tp colonp src
    | none =>
      if ch = 58 then
        if xdigitsSeen = 0 then
          if colonp.isSome then none else inetPton6Loop src 0 0 tp (some tp.length) src
        else if src = [] ∨ 16 < tp.length + 2 then none
        else
          inetPton6Loop src 0 0 (tp ++ [BitVec.ofNat 8 (val / 256), BitVec.ofNat 8 val]) colonp src
      else if ch = 46 ∧ tp.length + 4 ≤ 16 then
        (inetPton4 curtok).map fun addr => (tp ++ addr.toList, colonp)
      else none

/-- The bytes after a `::` are moved to the end. -/
def inetPton6Expand (tp : List Byte) : Option ℕ → Option (List Byte)
  | none => some tp
  | some colonp =>
    if tp.length = 16 then none
    else some (tp.take colonp ++ List.replicate (16 - tp.length) 0 ++ tp.drop colonp)

/-- `inet_pton(AF_INET6, src, &addr)`. -/
def inetPton6 (src : CString) : Option (Vector Byte 16) := do
  let src ← match src with
    | [] => none
    | 58 :: src => if src.head? = some 58 then some src else none
    | src => some src
  let (tp, colonp) ← inetPton6Loop src 0 0 [] none src
  let bytes ← inetPton6Expand tp colonp
  if h : bytes.length = 16 then some ⟨bytes.toArray, h⟩ else none

/-- `ip_convert`: IPv6 is tried first. -/
def ipConvert (ipstr : CString) : Option Sock :=
  match inetPton6 ipstr with
  | some addr => some (.inet6 addr)
  | none => (inetPton4 ipstr).map .inet

/-! ### Address to text -/

/-- A number in decimal or hexadecimal, with small letters. -/
def printNat (base : ℕ) (n : ℕ) : CString :=
  (Nat.toDigits base n).map fun c => BitVec.ofNat 8 c.toNat

/-- `inet_ntop` for IPv4. -/
def inetNtop4 (src : List Byte) : CString :=
  List.intercalate [46] (src.map fun b => printNat 10 b.toNat)

/-- The 16-bit words of an address. -/
def words : List Byte → List ℕ
  | a :: b :: src => (a.toNat * 256 + b.toNat) :: words src
  | _ => []

/-- The first of the longest runs of zero words, from the word of index `i` on: its index and its
length. -/
def longestZeros (i : ℕ) : List ℕ → ℕ × ℕ
  | [] => (i, 0)
  | w :: ws =>
    let best := longestZeros (i + 1) ws
    let run := ((w :: ws).takeWhile (· = 0)).length
    if best.2 ≤ run then (i, run) else best

/-- The words of an address from the word of index `i` on, with a colon before each one but the
first, and one colon for the run of zeros. A mapped or compatible IPv4 address ends in its dotted
form. -/
def inetNtop6Loop (src : List Byte) (best : ℕ × ℕ) : ℕ → List ℕ → CString
  | _, [] => []
  | i, w :: ws =>
    if best.1 ≤ i ∧ i < best.1 + best.2 then
      (if i = best.1 then [58] else []) ++ inetNtop6Loop src best (i + 1) ws
    else
      let sep : CString := if i ≠ 0 then [58] else []
      if i = 6 ∧ best.1 = 0 ∧ (best.2 = 6 ∨ best.2 = 5 ∧ (words src)[5]? = some 0xffff) then
        sep ++ inetNtop4 (src.drop 12)
      else sep ++ printNat 16 w ++ inetNtop6Loop src best (i + 1) ws

/-- `inet_ntop` for IPv6. A run of one zero word is printed as it is. -/
def inetNtop6 (src : List Byte) : CString :=
  let best := longestZeros 0 (words src)
  let best := if best.2 < 2 then (8, 0) else best
  inetNtop6Loop src best 0 (words src) ++ (if best.2 ≠ 0 ∧ best.1 + best.2 = 8 then [58] else [])

/-- `ip_str`: an address of an unknown family has no text. -/
def ipStr : Sock → Option CString
  | .unspec => none
  | .inet addr => some (inetNtop4 addr.toList)
  | .inet6 addr => some (inetNtop6 addr.toList)

/-! ### Prefixes -/

/-- `struct prefix`. -/
structure Prefix where
  addr : Sock
  len : ℕ
  deriving DecidableEq, Repr

/-- The families of two addresses are the same. -/
def Sock.sameFamily : Sock → Sock → Bool
  | .inet _, .inet _ => true
  | .inet6 _, .inet6 _ => true
  | _, _ => false

/-- `ip_in_prefix`. -/
def ipInPrefix (pfx : Prefix) (addr : Sock) : Bool :=
  let lenfull := pfx.len / 8
  let lastmask : Byte := ~~~(0xff#8 >>> (pfx.len % 8))
  pfx.addr.sameFamily addr &&
    addr.bytes.take lenfull = pfx.addr.bytes.take lenfull &&
    (lastmask = 0 ∨
      (addr.bytes.getD lenfull 0 ^^^ pfx.addr.bytes.getD lenfull 0) &&& lastmask = 0)

/-- `struct prefix_quota`; a quota of -1 is no limit. -/
structure PrefixQuota where
  pfx : Prefix
  quota : ℤ
  deriving DecidableEq, Repr

/-- `struct prefix_table`. -/
structure PrefixTable where
  v6Table : List PrefixQuota
  v4Table : List PrefixQuota
  deriving DecidableEq, Repr

/-- `_monofamily_prefix_table_get_quota`: the table is searched from its end. -/
def monofamilyGetQuota (entries : List PrefixQuota) (addr : Sock) : ℤ :=
  match entries.reverse.find? fun e => ipInPrefix e.pfx addr with
  | some e => e.quota
  | none => -1

/-- `prefix_table_get_quota`. -/
def PrefixTable.getQuota (this : PrefixTable) (addr : Sock) : ℤ :=
  match addr with
  | .inet6 _ => monofamilyGetQuota this.v6Table addr
  | .inet _ => monofamilyGetQuota this.v4Table addr
  | .unspec => -1

end ChilopodCaster
