import ChilopodCaster.Decimal
import ChilopodCaster.Lib.Extended
import Mathlib.Data.Rat.Defs

/-!
# Reading floating-point numbers

The conversion `%f` of `scanf`, without the rounding: the number read is exact. It skips white
space, and takes the longest part of what follows that a number can start with, up to the width if
there is one. A number is read if that part is one: decimal or hexadecimal digits with a point or
not and an exponent or not, `inf`, `infinity`, `nan` or `nan(...)`, with a sign or not, in either
case.

## Main definitions

* `FloatState` — what was seen of a number
* `scanValue` — the number that a text denotes
* `scanFloat` — the conversion
-/

namespace ChilopodCaster

/-- What was seen of a number. -/
inductive FloatState
  /-- nothing, or a sign -/
  | start (signed : Bool)
  /-- a first `0` -/
  | zero
  /-- digits -/
  | int
  /-- a point, with no digit before it -/
  | point
  /-- digits and a point -/
  | frac
  /-- an exponent mark -/
  | exp
  | expSign
  | expDigits
  /-- `0x` -/
  | hex
  | hexInt
  | hexPoint
  | hexFrac
  /-- a part of `infinity`, with the letters that are left -/
  | infinity (rest : CString)
  /-- a part of `nan`, with the letters that are left -/
  | nan (rest : CString)
  /-- an opening bracket after `nan` -/
  | nanChars
  | done
  deriving DecidableEq, Repr

/-- A letter or a digit, or `_`. -/
def isNanChar (c : Byte) : Bool :=
  isdigit c || c = 0x5f || (97 ≤ (tolower c).toNat && (tolower c).toNat ≤ 122)

/-- One more character of a number, if it can be. -/
def FloatState.step : FloatState → Byte → Option FloatState
  | start signed, c =>
    if !signed && (c = 0x2b || c = 0x2d) then some (start true)
    else if c = 0x30 then some zero
    else if isdigit c then some int
    else if c = 0x2e then some point
    else if tolower c = 0x69 then some (infinity (cstr "nfinity"))
    else if tolower c = 0x6e then some (nan (cstr "an"))
    else none
  | zero, c =>
    if tolower c = 0x78 then some hex
    else if isdigit c then some int
    else if c = 0x2e then some frac
    else if tolower c = 0x65 then some exp
    else none
  | int, c =>
    if isdigit c then some int
    else if c = 0x2e then some frac
    else if tolower c = 0x65 then some exp
    else none
  | point, c => if isdigit c then some frac else none
  | frac, c =>
    if isdigit c then some frac
    else if tolower c = 0x65 then some exp
    else none
  | exp, c =>
    if c = 0x2b || c = 0x2d then some expSign
    else if isdigit c then some expDigits
    else none
  | expSign, c => if isdigit c then some expDigits else none
  | expDigits, c => if isdigit c then some expDigits else none
  | hex, c =>
    if isxdigit c then some hexInt
    else if c = 0x2e then some hexPoint
    else none
  | hexInt, c =>
    if isxdigit c then some hexInt
    else if c = 0x2e then some hexFrac
    else if tolower c = 0x70 then some exp
    else none
  | hexPoint, c => if isxdigit c then some hexFrac else none
  | hexFrac, c =>
    if isxdigit c then some hexFrac
    else if tolower c = 0x70 then some exp
    else none
  | infinity rest, c => if rest.head? = some (tolower c) then some (infinity rest.tail) else none
  | nan rest, c =>
    if rest.head? = some (tolower c) then some (nan rest.tail)
    else if rest = [] ∧ c = 0x28 then some nanChars
    else none
  | nanChars, c =>
    if isNanChar c then some nanChars
    else if c = 0x29 then some done
    else none
  | done, _ => none

/-- What was seen is a number. -/
def FloatState.accepts : FloatState → Bool
  | zero | int | frac | expDigits | hexInt | hexFrac | done => true
  | infinity rest => rest = [] || rest = cstr "inity"
  | nan rest => rest = []
  | _ => false

/-- The characters that are taken, at most `width` of them, and what they are of a number. -/
def scanItem (q : FloatState) : ℕ → CString → CString × FloatState
  | 0, _ => ([], q)
  | _ + 1, [] => ([], q)
  | width + 1, c :: s =>
    match q.step c with
    | none => ([], q)
    | some q => ((scanItem q width s).map (c :: ·) id)

/-- The sign of a text, and the rest in small letters. -/
def splitSign (s : CString) : Bool × CString :=
  (s.head? = some 0x2d,
    (if s.head? = some 0x2d ∨ s.head? = some 0x2b then s.tail else s).map tolower)

/-- The number that a text denotes, of those that `FloatState` accepts. -/
def scanValue (s : CString) : Extended ℚ :=
  let (isNeg, s) := splitSign s
  if s.head? = some 0x69 then .inf isNeg
  else if s.head? = some 0x6e then .nan
  else
    let isHex : Bool := s.take 2 = cstr "0x"
    let s := if isHex then s.drop 2 else s
    let mark : Byte := if isHex then 0x70 else 0x65
    let mantissa := s.takeWhile (· ≠ mark)
    let exponent := splitSign (s.dropWhile (· ≠ mark)).tail
    let int := mantissa.takeWhile (· ≠ 0x2e)
    let frac := (mantissa.dropWhile (· ≠ 0x2e)).tail
    let e : ℤ := if exponent.1 then -(decValue exponent.2 : ℤ) else decValue exponent.2
    let q : ℚ :=
      if isHex then hexValue (int ++ frac) / 16 ^ frac.length * (2 : ℚ) ^ e
      else decValue (int ++ frac) / 10 ^ frac.length * (10 : ℚ) ^ e
    .fin (if isNeg then -q else q)

/-- The conversion `%f`, with a width or without: the number read, and the text after it. -/
def scanFloat (width : Option ℕ) (s : CString) : Option (Extended ℚ × CString) :=
  let s := s.dropWhile isspace
  let (item, q) := scanItem (.start false) (width.getD s.length) s
  if q.accepts then some (scanValue item, s.drop item.length) else none

/-- `sscanf(s, "%f", &v)`. -/
def sscanfF (s : CString) : Option (Extended ℚ) := (scanFloat none s).map Prod.fst

/-- `sscanf(s, "%f%f", &v, &w)` with a width for the first number. -/
def sscanfFF (width : ℕ) (s : CString) : Option (Extended ℚ × Extended ℚ) := do
  let (v, s) ← scanFloat (some width) s
  let (w, _) ← scanFloat none s
  return (v, w)

/-- A latitude is cut after the degrees, and the minutes may be anything that is a number to C. -/
example : sscanfFF 2 (cstr "4849.5") = some (.fin 48, .fin (99 / 2)) ∧
    sscanfFF 2 (cstr "48nan") = some (.fin 48, .nan) ∧ sscanfFF 2 (cstr "inf12") = none := by
  decide +kernel

end ChilopodCaster
