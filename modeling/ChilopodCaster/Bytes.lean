import Mathlib.Algebra.Order.Ring.Int
import Mathlib.Data.List.TakeWhile
import Mathlib.Tactic.Common

/-!
# Bytes, C strings and the C library on them

Everything the caster receives is a string of bytes, held by libevent in an `evbuffer`. An evbuffer
is a byte queue here: a list, appended to at the end and drained from the front. Its length is a
natural number. The `int` counters the source keeps of such lengths hold what one read callback
brings (libevent hands over 16 KiB at most) plus an unfinished frame or line, far below `INT_MAX`.

A C string is the list of its bytes before the terminating NUL.

## Main definitions

* `evbufferReadlnCrlfStrict` — `evbuffer_readln` with `EVBUFFER_EOL_CRLF_STRICT`
* `sscanfZx` — the conversion `%zx` of `sscanf`
-/

namespace ChilopodCaster

/-- A byte, `unsigned char` in the source. -/
abbrev Byte := BitVec 8

instance instLawfulBEqByte : LawfulBEq Byte := inferInstance

/-- A C string, without its terminating NUL. -/
abbrev CString := List Byte

/-- A string literal of the source; these are ASCII. -/
def cstr (s : String) : CString := s.toList.map fun c => BitVec.ofNat 8 c.toNat

/-- Carriage return. -/
abbrev CR : Byte := 13

/-- Line feed. -/
abbrev LF : Byte := 10

/-- The end of line of HTTP. -/
abbrev crlf : List Byte := [CR, LF]

/-- `evbuffer_readln(input, &len, EVBUFFER_EOL_CRLF_STRICT)`: the bytes before the first CR LF and
the buffer after it, or nothing (and the buffer unchanged) when there is no CR LF yet. -/
def evbufferReadlnCrlfStrict : List Byte → Option (List Byte × List Byte)
  | c :: d :: rest =>
    if c = CR ∧ d = LF then some ([], rest)
    else (evbufferReadlnCrlfStrict (d :: rest)).map fun r => (c :: r.1, r.2)
  | _ => none

theorem evbufferReadlnCrlfStrict_append {line : List Byte} (hline : CR ∉ line) (rest : List Byte) :
    evbufferReadlnCrlfStrict (line ++ crlf ++ rest) = some (line, rest) := by
  induction line with
  | nil => simp [evbufferReadlnCrlfStrict]
  | cons c line ih =>
    have hc : c ≠ CR := fun h => hline (h ▸ List.mem_cons_self ..)
    have ih' := ih fun h => hline (List.mem_cons_of_mem _ h)
    obtain ⟨d, tl, hd⟩ : ∃ d tl, line ++ crlf ++ rest = d :: tl := by
      cases line <;> exact ⟨_, _, rfl⟩
    simp only [List.cons_append]
    rw [hd] at ih' ⊢
    rw [evbufferReadlnCrlfStrict, if_neg (fun h => hc h.1), ih']
    rfl

/-- With no CR LF in the buffer, what is there is at most one line and the CR that ends it. -/
theorem length_le_of_readln_eq_none {line buf rest fut : List Byte} (hline : CR ∉ line)
    (h : evbufferReadlnCrlfStrict buf = none) (heq : buf ++ fut = line ++ crlf ++ rest) :
    buf.length ≤ line.length + 1 := by
  by_contra hlt
  have hpre : ∃ more, buf = line ++ crlf ++ more := by
    refine ⟨buf.drop (line.length + 2), ?_⟩
    have htake : buf.take (line.length + 2) = line ++ crlf := by
      have := congrArg (List.take (line.length + 2)) heq
      rw [List.take_append_of_le_length (by omega),
        List.take_append_of_le_length (by simp)] at this
      rw [this, List.take_of_length_le (by simp)]
    conv => lhs; rw [← List.take_append_drop (line.length + 2) buf, htake]
  obtain ⟨more, rfl⟩ := hpre
  rw [evbufferReadlnCrlfStrict_append hline] at h
  exact absurd h (by simp)

theorem evbufferReadlnCrlfStrict_append_right {buf line rest : List Byte} (fut : List Byte)
    (h : evbufferReadlnCrlfStrict buf = some (line, rest)) :
    evbufferReadlnCrlfStrict (buf ++ fut) = some (line, rest ++ fut) := by
  induction buf using evbufferReadlnCrlfStrict.induct generalizing line with
  | case1 c d rest' hcd =>
    rw [evbufferReadlnCrlfStrict, if_pos hcd] at h
    simp only [Option.some.injEq, Prod.mk.injEq] at h
    rw [List.cons_append, List.cons_append, evbufferReadlnCrlfStrict, if_pos hcd, ← h.1, ← h.2]
  | case2 c d rest' hcd ih =>
    rw [evbufferReadlnCrlfStrict, if_neg hcd] at h
    obtain ⟨r, hr, heq⟩ := Option.map_eq_some_iff.mp h
    obtain ⟨h1, h2⟩ := Prod.mk.inj heq
    have hr' := @ih r.1 (by rw [hr, ← h2])
    rw [List.cons_append, List.cons_append, evbufferReadlnCrlfStrict, if_neg hcd,
      ← List.cons_append, hr', ← h1]
    rfl
  | case3 buf hbuf =>
    rw [evbufferReadlnCrlfStrict] at h
    · exact absurd h (by simp)
    · exact hbuf

/-- A line read from the part of a stream that has arrived is the stream's first line. -/
theorem readln_eq_of_append {buf fut line rest l r : List Byte} (hline : CR ∉ line)
    (heq : buf ++ fut = line ++ crlf ++ rest)
    (h : evbufferReadlnCrlfStrict buf = some (l, r)) : l = line ∧ r ++ fut = rest := by
  have h1 := evbufferReadlnCrlfStrict_append_right fut h
  rw [heq, evbufferReadlnCrlfStrict_append hline] at h1
  simp only [Option.some.injEq, Prod.mk.injEq] at h1
  exact ⟨h1.1.symm, h1.2.symm⟩

theorem length_of_readln_eq_some {buf line rest : List Byte}
    (h : evbufferReadlnCrlfStrict buf = some (line, rest)) : rest.length < buf.length := by
  induction buf using evbufferReadlnCrlfStrict.induct generalizing line with
  | case1 c d rest' hcd =>
    rw [evbufferReadlnCrlfStrict, if_pos hcd] at h
    simp only [Option.some.injEq, Prod.mk.injEq] at h
    simp only [← h.2, List.length_cons]
    omega
  | case2 c d rest' hcd ih =>
    rw [evbufferReadlnCrlfStrict, if_neg hcd] at h
    obtain ⟨r, hr, heq⟩ := Option.map_eq_some_iff.mp h
    have hr2 : r.2 = rest := (Prod.mk.inj heq).2
    have := @ih r.1 (by rw [hr, ← hr2])
    simp only [List.length_cons] at this ⊢
    omega
  | case3 buf hbuf =>
    rw [evbufferReadlnCrlfStrict] at h
    · exact absurd h (by simp)
    · exact hbuf

/-! ### Comparing strings -/

/-- `tolower` in the C locale. -/
def tolower (c : Byte) : Byte := if 65 ≤ c.toNat ∧ c.toNat ≤ 90 then c + 32 else c

/-- `strcasecmp`: whether it finds a difference. -/
def strcasecmp (s t : CString) : Bool := s.map tolower ≠ t.map tolower

/-! ### Reading a hexadecimal number -/

/-- The value of a hexadecimal digit, of either case. -/
def hexDigit (c : Byte) : Option ℕ :=
  let n := c.toNat
  if 48 ≤ n ∧ n ≤ 57 then some (n - 48)
  else if 65 ≤ n ∧ n ≤ 70 then some (n - 55)
  else if 97 ≤ n ∧ n ≤ 102 then some (n - 87)
  else none

/-- `isxdigit`. -/
def isxdigit (c : Byte) : Bool := (hexDigit c).isSome

/-- `isspace` in the C locale. -/
def isspace (c : Byte) : Bool := c = 32 ∨ (9 ≤ c.toNat ∧ c.toNat ≤ 13)

/-- The number a string of hexadecimal digits denotes. -/
def hexValue (s : List Byte) : ℕ := s.foldl (fun v c => v * 16 + (hexDigit c).getD 0) 0

/-- The largest `size_t`. -/
abbrev SIZE_MAX : ℕ := 2 ^ 64 - 1

/-- Skip an optional `0x`, as a base-16 conversion does. -/
def skipHexMark : List Byte → List Byte
  | c :: x :: s => if c = 48 ∧ (x = 120 ∨ x = 88) then s else c :: x :: s
  | s => s

/-- `sscanf(s, "%zx", &v)`: white space, an optional sign, an optional `0x`, then at least one
hexadecimal digit. A number too large for a `size_t` is stored as `SIZE_MAX`, and a minus sign
negates modulo 2^64. `none` when nothing is converted. -/
def sscanfZx (s : List Byte) : Option ℕ :=
  let s := s.dropWhile isspace
  let neg := s.head? = some 45
  let s := if s.head? = some 45 ∨ s.head? = some 43 then s.tail else s
  let digits := (skipHexMark s).takeWhile isxdigit
  if digits = [] then none
  else
    let v := min (hexValue digits) SIZE_MAX
    some (if neg then (2 ^ 64 - v) % 2 ^ 64 else v)

theorem isspace_of_isxdigit {c : Byte} (h : isxdigit c) : isspace c = false := by
  revert c; decide

theorem ne_of_isxdigit {c : Byte} (h : isxdigit c) :
    c ≠ 45 ∧ c ≠ 43 ∧ c ≠ 120 ∧ c ≠ 88 ∧ c ≠ CR ∧ c ≠ LF ∧ c ≠ 59 ∧ c ≠ 0 := by
  revert c; decide

theorem skipHexMark_of_isxdigit {s : List Byte} (h : ∀ c ∈ s, isxdigit c) : skipHexMark s = s := by
  match s with
  | [] => rfl
  | [_] => rfl
  | c :: x :: s =>
    have hx := ne_of_isxdigit (h x (by simp))
    rw [skipHexMark, if_neg]
    rintro ⟨-, rfl | rfl⟩
    · exact hx.2.2.1 rfl
    · exact hx.2.2.2.1 rfl

/-- A line of hexadecimal digits alone is read as the number it denotes. -/
theorem sscanfZx_of_isxdigit {s : List Byte} (hne : s ≠ []) (h : ∀ c ∈ s, isxdigit c)
    (hmax : hexValue s ≤ SIZE_MAX) : sscanfZx s = some (hexValue s) := by
  obtain ⟨c, tl, rfl⟩ := List.exists_cons_of_ne_nil hne
  have hc := h c (by simp)
  have hdrop : (c :: tl).dropWhile isspace = c :: tl := by
    rw [List.dropWhile_cons, if_neg (by simp [isspace_of_isxdigit hc])]
  have hhead : ∀ x : Byte, c ≠ x → (c :: tl).head? ≠ some x := by simp
  have htake : (c :: tl).takeWhile isxdigit = c :: tl := List.takeWhile_eq_self_iff.mpr h
  simp only [sscanfZx, hdrop, hhead _ (ne_of_isxdigit hc).1, hhead _ (ne_of_isxdigit hc).2.1,
    or_self, if_false, skipHexMark_of_isxdigit h, htake, hne, Nat.min_eq_left hmax]

/-! ### Reading a decimal number -/

/-- `isdigit`. -/
def isdigit (c : Byte) : Bool := 48 ≤ c.toNat ∧ c.toNat ≤ 57

/-- The number a string of decimal digits denotes. -/
def decValue (s : List Byte) : ℕ := s.foldl (fun v c => v * 10 + (c.toNat - 48)) 0

/-- `strtoll(s, &end, 10)`: white space, an optional sign, then at least one digit. A number out of
range is stored as the nearest `long long`. `none` when nothing is converted. -/
def strtoll (s : CString) : Option ℤ :=
  let s := s.dropWhile isspace
  let neg := s.head? = some 45
  let s := if s.head? = some 45 ∨ s.head? = some 43 then s.tail else s
  let digits := s.takeWhile isdigit
  if digits = [] then none
  else
    let v : ℤ := decValue digits
    some (max (-2 ^ 63) (min (2 ^ 63 - 1) (if neg then -v else v)))

/-- `sscanf(s, "%d", &v)`: the `long` read, stored in an `int`. -/
def sscanfD (s : CString) : Option (BitVec 32) := (strtoll s).map (BitVec.ofInt 32)

/-! ### Writing to a buffer -/

/-- The bytes `s` are written to a buffer at an offset. `none` is a write out of its bounds. -/
def store (r : List Byte) (rp : ℕ) (s : List Byte) : Option (List Byte) :=
  if rp + s.length ≤ r.length then some (r.take rp ++ (s ++ r.drop (rp + s.length))) else none

/-- A write at the end of what was written. -/
theorem store_append {r tail s : List Byte} (h : s.length ≤ tail.length) :
    store (r ++ tail) r.length s = some (r ++ (s ++ tail.drop s.length)) := by
  have hbound : r.length + s.length ≤ (r ++ tail).length := by
    rw [List.length_append]
    omega
  rw [store, if_pos hbound, List.take_left, List.drop_append, Nat.add_sub_cancel_left,
    List.drop_eq_nil_of_le (Nat.le_add_right _ _), List.nil_append]

end ChilopodCaster
