import ChilopodCaster.Decimal
import ChilopodCaster.Lib.Calendar
import ChilopodCaster.Sourcetable

/-!
# Dates in ISO format

Times travel between nodes as texts such as `2024-01-15T10:30:45.123Z` (`util.c`). The parser leaves
the date to `strptime`, then looks at fixed places of the text for the fraction.

`strptime` skips blanks before a number and takes fewer digits than the field has, and one digit of
the seconds if the two would be too many. What it leaves unread is not looked at, so the places of
the fraction may be any. Of a fraction only the first six characters are checked.

## Main definitions

* `Blanks`, `strptime` — the C library, on the format of the date
* `timegm`, `gmtime` — seconds and dates
* `timevalFromIsoDate` — `timeval_from_iso_date`
* `isoText` — the texts of the format
* `Misread` — the texts taken by mistake

## Main results

* `timegm_gmtime` — seconds become a date and back
* `strptime_date19` — a date that is written out is read
* `parsedExactly_iff` — all texts but those of `Misread` are parsed exactly
-/

namespace ChilopodCaster

namespace IsoDate

/-! ### Dates and seconds -/

/-- `struct tm`, as far as the date format goes; years are those of the calendar and months count
from 1. -/
structure Tm where
  year : ℤ
  month : ℕ
  day : ℕ
  hour : ℕ
  min : ℕ
  sec : ℕ
  deriving DecidableEq, Repr

/-- `timegm`. -/
def timegm (date : Tm) : ℤ :=
  ((Calendar.days date.year date.month date.day * 24 + date.hour) * 60 + date.min) * 60 + date.sec

/-- `gmtime_r`. -/
def gmtime (t : ℤ) : Tm where
  year := Calendar.civilYear (t / 86400)
  month := Calendar.civilMonth (t / 86400)
  day := Calendar.civilDay (t / 86400)
  hour := (t % 86400).toNat / 3600
  min := (t % 86400).toNat / 60 % 60
  sec := (t % 86400).toNat % 60

/-- **Seconds become a date and back.** -/
theorem timegm_gmtime (t : ℤ) : timegm (gmtime t) = t := by
  rw [timegm, gmtime]
  dsimp only
  rw [Calendar.days_civil]
  omega

/-! ### Reading a date -/

/-- The white space that `strptime` skips before a number: no digit is one. -/
structure Blanks where
  isBlank : Byte → Bool
  not_digit : ∀ c, isdigit c = true → isBlank c = false

/-- The digits of a number after the first one: at most `n`, as long as the number times ten is not
too large. -/
def moreDigits (hi : ℕ) : ℕ → ℕ → CString → ℕ × CString
  | n + 1, val, c :: rp =>
    if val * 10 ≤ hi ∧ isdigit c then moreDigits hi n (val * 10 + (c.toNat - 48)) rp
    else (val, c :: rp)
  | _, val, rp => (val, rp)

/-- `get_number`, in `strptime`: at most `n` digits, for a number from `lo` to `hi`. -/
def getNumber (blanks : Blanks) (lo hi n : ℕ) (rp : CString) : Option (ℕ × CString) :=
  match rp.dropWhile blanks.isBlank with
  | [] => none
  | c :: rp =>
    if isdigit c then
      let r := moreDigits hi (n - 1) (c.toNat - 48) rp
      if r.1 < lo ∨ hi < r.1 then none else some r
    else none

/-- A character of the format that stands for itself. -/
def matchChar (c : Byte) : CString → Option CString
  | [] => none
  | d :: rp => if d = c then some rp else none

/-- `strptime(s, "%Y-%m-%dT%H:%M:%S", &date)`, with what it leaves unread. -/
def strptime (blanks : Blanks) (s : CString) : Option (Tm × CString) := do
  let (year, s) ← getNumber blanks 0 9999 4 s
  let s ← matchChar 45 s
  let (month, s) ← getNumber blanks 1 12 2 s
  let s ← matchChar 45 s
  let (day, s) ← getNumber blanks 1 31 2 s
  let s ← matchChar 84 s
  let (hour, s) ← getNumber blanks 0 23 2 s
  let s ← matchChar 58 s
  let (min, s) ← getNumber blanks 0 59 2 s
  let s ← matchChar 58 s
  let (sec, s) ← getNumber blanks 0 61 2 s
  return (⟨year, month, day, hour, min, sec⟩, s)

/-! ### The parser of the source -/

/-- One character of `usec_digits`, or `none` if it is refused. -/
def usecDigit (isoDate : CString) (ndigits i : ℕ) : Option Byte :=
  let c := if i < ndigits then isoDate.getD (20 + i) 0 else 48
  if i < ndigits ∧ isdigit c = false then none else some c

/-- The fraction, in microseconds, or `none` if it is refused. -/
def fractionUsec (isoDate : CString) : Option ℤ :=
  if isoDate.length = 20 then some 0
  else if isoDate[19]? = some 46 then
    let ndigits := isoDate.length - 21
    if ndigits < 1 ∨ ndigits > 9 then none
    else
      ((List.range 6).mapM (usecDigit isoDate ndigits)).map fun usecDigits =>
        (sscanfD usecDigits).elim 0 BitVec.toInt
  else none

/-- `timeval_from_iso_date`: what it returns, and what it leaves in `t`. -/
def timevalFromIsoDate (blanks : Blanks) (t : Timeval) (isoDate : CString) : ℕ × Timeval :=
  if isoDate.length < 20 ∨ isoDate.getLast? ≠ some 90 then (0, t)
  else
    match strptime blanks isoDate with
    | none => (0, t)
    | some (date, _) =>
      match fractionUsec isoDate with
      | none => (0, t)
      | some tvUsec => (1, ⟨timegm date, tvUsec⟩)

/-! ### The format -/

/-- A number written with `w` digits. -/
def pad : ℕ → ℕ → CString
  | 0, _ => []
  | w + 1, n => digitByte (n / 10 ^ w % 10) :: pad w n

/-- The date and the time, written out. -/
def date19 (date : Tm) : CString :=
  pad 4 date.year.toNat ++ 45 :: (pad 2 date.month ++ 45 :: (pad 2 date.day ++ 84 ::
    (pad 2 date.hour ++ 58 :: (pad 2 date.min ++ 58 :: pad 2 date.sec))))

/-- The fields are in the ranges that `strptime` accepts. -/
structure Tm.InRange (date : Tm) : Prop where
  year : 0 ≤ date.year ∧ date.year ≤ 9999
  month : 1 ≤ date.month ∧ date.month ≤ 12
  day : 1 ≤ date.day ∧ date.day ≤ 31
  hour : date.hour ≤ 23
  min : date.min ≤ 59
  sec : date.sec ≤ 61

/-- A fraction after its point; without digits there is none. -/
def point (fraction : CString) : CString := if fraction = [] then [] else 46 :: fraction

/-- The text of a date and the digits of a fraction, if there are any. -/
def isoText (date : Tm) (fraction : CString) : CString := date19 date ++ (point fraction ++ [90])

/-- The digits of a fraction, nine at most. -/
def IsFraction (fraction : CString) : Prop :=
  fraction.length ≤ 9 ∧ ∀ c ∈ fraction, isdigit c = true

/-- The microseconds of a fraction: its first six digits, padded with zeros. -/
def usec (fraction : CString) : ℤ :=
  decValue (fraction.take 6 ++ List.replicate (6 - fraction.length) 48)

/-- The text has the form of a date. -/
def IsIsoDate (s : CString) : Prop :=
  ∃ date fraction, Tm.InRange date ∧ IsFraction fraction ∧ s = isoText date fraction

/-- **The parser is exact on a text**: it takes the dates and nothing else, stores the time that a
date denotes, and otherwise leaves the time alone. -/
def ParsedExactly (blanks : Blanks) (s : CString) : Prop :=
  ∀ t : Timeval,
    ((timevalFromIsoDate blanks t s).1 = 1 ↔ IsIsoDate s) ∧
    (∀ date fraction, Tm.InRange date → IsFraction fraction → s = isoText date fraction →
      (timevalFromIsoDate blanks t s).2 = ⟨timegm date, usec fraction⟩) ∧
    ((timevalFromIsoDate blanks t s).1 = 0 → (timevalFromIsoDate blanks t s).2 = t)

/-! ### A date that is written out is read -/

theorem length_pad (w n : ℕ) : (pad w n).length = w := by
  induction w with
  | zero => rfl
  | succ w ih => rw [pad, List.length_cons, ih]

theorem isdigit_pad {w n : ℕ} : ∀ c ∈ pad w n, isdigit c = true := by
  induction w with
  | zero => intro c hc; contradiction
  | succ w ih =>
    intro c hc
    rcases List.mem_cons.mp hc with rfl | hc
    · exact (digitByte_lt (Nat.mod_lt _ (by decide))).1
    · exact ih c hc

/-- The digits that follow are read if the number is not too large. -/
theorem moreDigits_pad {hi k val m : ℕ} (rp : CString) (h : val * 10 ^ k + m % 10 ^ k ≤ hi) :
    moreDigits hi k val (pad k m ++ rp) = (val * 10 ^ k + m % 10 ^ k, rp) := by
  induction k generalizing val with
  | zero =>
    rw [pow_zero, Nat.mul_one, Nat.mod_one, Nat.add_zero]
    rfl
  | succ k ih =>
    have hd := digitByte_lt (Nat.mod_lt (m / 10 ^ k) (show 0 < 10 by decide))
    have hsum : (val * 10 + m / 10 ^ k % 10) * 10 ^ k + m % 10 ^ k =
        val * 10 ^ (k + 1) + m % 10 ^ (k + 1) := by
      rw [Nat.mod_pow_succ, pow_succ]
      ring
    have hval : val * 10 ≤ hi := by
      refine le_trans ?_ (le_trans (Nat.le_add_right _ _) h)
      exact Nat.mul_le_mul_left val (Nat.le_self_pow (Nat.succ_ne_zero k) 10)
    rw [pad, List.cons_append, moreDigits, if_pos ⟨hval, hd.1⟩, hd.2, ih (by rw [hsum]; exact h),
      hsum]

theorem getNumber_pad (blanks : Blanks) {lo hi w n : ℕ} (hlo : lo ≤ n) (hhi : n ≤ hi)
    (hw : n < 10 ^ (w + 1)) (rp : CString) :
    getNumber blanks lo hi (w + 1) (pad (w + 1) n ++ rp) = some (n, rp) := by
  have hd := digitByte_lt (Nat.mod_lt (n / 10 ^ w) (show 0 < 10 by decide))
  have hn : n / 10 ^ w % 10 * 10 ^ w + n % 10 ^ w = n := by
    have hmod := Nat.mod_pow_succ (b := 10) (k := w) (x := n)
    rw [Nat.mod_eq_of_lt hw] at hmod
    rw [Nat.mul_comm, Nat.add_comm, ← hmod]
  have hmore : moreDigits hi w (n / 10 ^ w % 10) (pad w n ++ rp) =
      (n / 10 ^ w % 10 * 10 ^ w + n % 10 ^ w, rp) := moreDigits_pad rp (by rw [hn]; exact hhi)
  rw [getNumber, pad, List.cons_append, List.dropWhile_cons_of_neg
    (by rw [blanks.not_digit _ hd.1]; exact Bool.false_ne_true)]
  dsimp only
  rw [if_pos hd.1, hd.2, Nat.add_sub_cancel, hmore, hn, if_neg (by omega)]

/-- **A date that is written out is read.** -/
theorem strptime_date19 (blanks : Blanks) {date : Tm} (h : date.InRange) (rest : CString) :
    strptime blanks (date19 date ++ rest) = some (date, rest) := by
  obtain ⟨year, month, day, hour, min, sec⟩ := date
  obtain ⟨⟨hyear, hyear'⟩, ⟨hmonth, hmonth'⟩, ⟨hday, hday'⟩, hhour, hmin, hsec⟩ := h
  dsimp only at hyear hyear' hmonth hmonth' hday hday' hhour hmin hsec
  obtain ⟨y, rfl⟩ := Int.eq_ofNat_of_zero_le hyear
  have hy (rp : CString) : getNumber blanks 0 9999 4 (pad 4 y ++ rp) = some (y, rp) :=
    getNumber_pad blanks (Nat.zero_le y) (by omega) (by omega) rp
  have hm (rp : CString) : getNumber blanks 1 12 2 (pad 2 month ++ rp) = some (month, rp) :=
    getNumber_pad blanks hmonth hmonth' (by omega) rp
  have hd (rp : CString) : getNumber blanks 1 31 2 (pad 2 day ++ rp) = some (day, rp) :=
    getNumber_pad blanks hday hday' (by omega) rp
  have hh (rp : CString) : getNumber blanks 0 23 2 (pad 2 hour ++ rp) = some (hour, rp) :=
    getNumber_pad blanks (Nat.zero_le hour) hhour (by omega) rp
  have hi (rp : CString) : getNumber blanks 0 59 2 (pad 2 min ++ rp) = some (min, rp) :=
    getNumber_pad blanks (Nat.zero_le min) hmin (by omega) rp
  have hs (rp : CString) : getNumber blanks 0 61 2 (pad 2 sec ++ rp) = some (sec, rp) :=
    getNumber_pad blanks (Nat.zero_le sec) hsec (by omega) rp
  have hchar (c : Byte) (rp : CString) : matchChar c (c :: rp) = some rp := if_pos rfl
  have htext : date19 ⟨y, month, day, hour, min, sec⟩ ++ rest = pad 4 y ++ (45 :: (pad 2 month ++
      (45 :: (pad 2 day ++ (84 :: (pad 2 hour ++ (58 :: (pad 2 min ++ (58 ::
        (pad 2 sec ++ rest)))))))))) := by
    simp only [date19, Int.toNat_natCast, List.append_assoc, List.cons_append]
  rw [htext, strptime, hy]
  -- each step is done before the ones that are bound after it are looked at
  simp only [↓Option.bind_eq_bind, ↓Option.bind_some, ↓hchar, ↓hm, ↓hd, ↓hh, ↓hi, ↓hs,
    Option.pure_def]

/-! ### The fraction -/

/-- The six digits of `usec_digits`. -/
def usecDigits (fraction : CString) : CString :=
  fraction.take 6 ++ List.replicate (6 - fraction.length) 48

theorem map_range_eq_usecDigits (fraction : CString) :
    ((List.range 6).map fun i => if i < fraction.length then fraction.getD i 0 else 48) =
      usecDigits fraction := by
  refine List.ext_getElem? fun i => ?_
  rw [usecDigits, List.getElem?_map, List.getElem?_append, List.getElem?_take,
    List.getElem?_replicate, List.length_take]
  by_cases hi : i < 6
  · rw [List.getElem?_range hi, Option.map_some]
    by_cases hlen : i < fraction.length
    · rw [if_pos hlen, if_pos (by omega), if_pos hi, List.getD_eq_getElem?_getD,
        List.getElem?_eq_getElem hlen]
      rfl
    · rw [if_neg hlen, if_neg (by omega), if_pos (by omega)]
  · rw [List.getElem?_eq_none (by simpa using hi), if_neg (by omega), if_neg (by omega)]
    rfl

theorem isdigit_usecDigits {fraction : CString} (h : ∀ c ∈ fraction.take 6, isdigit c = true) :
    ∀ c ∈ usecDigits fraction, isdigit c = true := by
  intro c hc
  rcases List.mem_append.mp hc with hc | hc
  · exact h c hc
  · rw [List.eq_of_mem_replicate hc]
    decide

theorem length_usecDigits (fraction : CString) : (usecDigits fraction).length = 6 := by
  rw [usecDigits, List.length_append, List.length_take, List.length_replicate]
  omega

/-- The digits are read as the number of microseconds. -/
theorem sscanfD_usecDigits {fraction : CString} (h : ∀ c ∈ fraction.take 6, isdigit c = true) :
    (sscanfD (usecDigits fraction)).elim 0 BitVec.toInt = usec fraction := by
  have hdigits := isdigit_usecDigits h
  have hne : usecDigits fraction ≠ [] := by
    rw [← List.length_pos_iff, length_usecDigits]
    decide
  have hlt := decValue_lt hdigits
  rw [length_usecDigits] at hlt
  rw [sscanfD, strtoll_of_isdigit hne hdigits, clamp_of_bounds (by omega) (by omega)]
  exact toInt_ofInt_of_bounds (by omega) (by omega)

variable {head fraction : CString}

/-- **The fraction**, in a text with 19 characters before it. -/
theorem fractionUsec_eq (hhead : head.length = 19) (hlen : fraction.length ≤ 9) :
    fractionUsec (head ++ (point fraction ++ [90])) =
      if ∀ c ∈ fraction.take 6, isdigit c = true then some (usec fraction) else none := by
  rcases eq_or_ne fraction [] with rfl | hne
  · rw [fractionUsec, point, if_pos rfl, if_pos (by simp [hhead]), if_pos (by simp)]
    rfl
  · have hpos := List.length_pos_iff.mpr hne
    have hlength : (head ++ (point fraction ++ [90])).length = fraction.length + 21 := by
      rw [point, if_neg hne]
      simp [hhead]
      omega
    have hpoint : (head ++ (point fraction ++ [90]))[19]? = some 46 := by
      rw [point, if_neg hne, List.getElem?_append_right (by omega), hhead]
      rfl
    have hget (i : ℕ) (hi : i < fraction.length) :
        (head ++ (point fraction ++ [90])).getD (20 + i) 0 = fraction.getD i 0 := by
      rw [point, if_neg hne, List.getD_eq_getElem?_getD, List.getElem?_append_right (by omega),
        hhead, show 20 + i - 19 = i + 1 by omega, List.cons_append, List.getElem?_cons_succ,
        List.getElem?_append_left hi, List.getD_eq_getElem?_getD]
    rw [fractionUsec, hlength, if_neg (by omega), if_pos hpoint]
    dsimp only
    rw [Nat.add_sub_cancel, if_neg (by omega)]
    split
    · next hdigits =>
      have hall : ∀ i ∈ List.range 6,
          usecDigit (head ++ (point fraction ++ [90])) fraction.length i =
            some (if i < fraction.length then fraction.getD i 0 else 48) := by
        intro i hi
        rw [usecDigit]
        by_cases hlt : i < fraction.length
        · have hmem : fraction.getD i 0 ∈ fraction.take 6 := by
            rw [List.getD_eq_getElem?_getD, List.getElem?_eq_getElem hlt]
            exact List.mem_take_iff_getElem.mpr
              ⟨i, by rw [List.mem_range] at hi; omega, rfl⟩
          rw [if_pos hlt, if_pos hlt, hget i hlt, if_neg]
          rw [hdigits _ hmem]
          simp
        · rw [if_neg hlt, if_neg hlt, if_neg fun h => hlt h.1]
      rw [Fold.mapM_eq_map hall, map_range_eq_usecDigits, Option.map_some,
        sscanfD_usecDigits hdigits]
    · next hdigits =>
      obtain ⟨c, hc, hbad⟩ : ∃ c ∈ fraction.take 6, ¬ isdigit c = true := by simpa using hdigits
      obtain ⟨i, hi, rfl⟩ := List.mem_take_iff_getElem.mp hc
      have hgetD : fraction.getD i 0 = fraction[i] := by
        rw [List.getD_eq_getElem?_getD, List.getElem?_eq_getElem (by omega)]
        rfl
      have hi' : i < fraction.length := by omega
      have hnone : (List.range 6).mapM (usecDigit (head ++ (point fraction ++ [90]))
          fraction.length) = none := by
        refine Fold.mapM_eq_none_iff.mpr ⟨i, List.mem_range.mpr (by omega), ?_⟩
        rw [usecDigit, if_pos hi', hget i hi', hgetD, if_pos ⟨hi', by simpa using hbad⟩]
      rw [hnone, Option.map_none]

/-! ### Exactly the dates -/

/-- **The texts taken by mistake.** `strptime` reads a date in the text, which ends as it should
from the twentieth character on, as far as that is looked at. But the first 19 characters are not a
date that is written out, or one of the characters of the fraction from the seventh on is no
digit. -/
def Misread (blanks : Blanks) (s : CString) : Prop :=
  ∃ head fraction, head.length = 19 ∧ s = head ++ (point fraction ++ [90]) ∧
    fraction.length ≤ 9 ∧ (∀ c ∈ fraction.take 6, isdigit c = true) ∧
    (strptime blanks s).isSome ∧
    ((∀ date : Tm, date.InRange → head ≠ date19 date) ∨
      ∃ c ∈ fraction.drop 6, isdigit c = false)

variable {blanks : Blanks} {s : CString} {t : Timeval}

theorem length_date19 (date : Tm) : (date19 date).length = 19 := by
  simp [date19, length_pad]

/-- A text that is cut at its twentieth character and before its last one. -/
theorem append_point_inj {head head' fraction fraction' : CString} (hhead : head.length = 19)
    (hhead' : head'.length = 19)
    (h : head ++ (point fraction ++ [90]) = head' ++ (point fraction' ++ [90])) :
    head = head' ∧ fraction = fraction' := by
  obtain ⟨rfl, htail⟩ := List.append_inj h (by rw [hhead, hhead'])
  have hpoint := List.append_cancel_right htail
  refine ⟨rfl, ?_⟩
  rw [point, point] at hpoint
  split at hpoint
  · next hnil =>
    split at hpoint
    · next hnil' => rw [hnil, hnil']
    · contradiction
  · split at hpoint
    · contradiction
    · exact (List.cons.inj hpoint).2

/-- What the parser makes of a text that ends as it should. -/
theorem timevalFromIsoDate_eq (blanks : Blanks) (t : Timeval) (hhead : head.length = 19)
    (hlen : fraction.length ≤ 9) (hdigits : ∀ c ∈ fraction.take 6, isdigit c = true) :
    timevalFromIsoDate blanks t (head ++ (point fraction ++ [90])) =
      match strptime blanks (head ++ (point fraction ++ [90])) with
      | none => (0, t)
      | some (date, _) => (1, ⟨timegm date, usec fraction⟩) := by
  rw [timevalFromIsoDate, if_neg, fractionUsec_eq hhead hlen, if_pos hdigits]
  rw [not_or, not_not, ← List.append_assoc, List.getLast?_append]
  refine ⟨?_, rfl⟩
  simp [hhead]
  omega

/-- A text whose fraction is taken. -/
theorem exists_fraction (hlen : 20 ≤ s.length) (hlast : s.getLast? = some 90)
    (h : (fractionUsec s).isSome) :
    ∃ head fraction : CString, head.length = 19 ∧ s = head ++ (point fraction ++ [90]) ∧
      fraction.length ≤ 9 := by
  obtain ⟨ys, rfl⟩ := List.getLast?_eq_some_iff.mp hlast
  rw [List.length_append, List.length_singleton] at hlen
  have hhead : (ys.take 19).length = 19 := by
    rw [List.length_take]
    omega
  refine ⟨ys.take 19, ?_⟩
  cases hmid : ys.drop 19 with
  | nil =>
    refine ⟨[], hhead, ?_, Nat.zero_le 9⟩
    rw [point, if_pos rfl, List.nil_append, ← List.append_nil (ys.take 19), ← hmid,
      List.take_append_drop]
  | cons c fraction =>
    have hys : ys ++ [90] = ys.take 19 ++ (c :: fraction ++ [90]) := by
      rw [← hmid, ← List.append_assoc, List.take_append_drop]
    have hlength : (ys ++ [90]).length = fraction.length + 21 := by
      rw [hys]
      simp [hhead]
      omega
    rw [fractionUsec, hlength, if_neg (by omega)] at h
    split at h
    · next hpoint =>
      rw [hys, List.getElem?_append_right (by omega), hhead] at hpoint
      obtain rfl : c = 46 := Option.some.inj hpoint
      dsimp only at h
      rw [Nat.add_sub_cancel] at h
      split at h
      · contradiction
      · next hndigits =>
        have hne : fraction ≠ [] := by
          rw [← List.length_pos_iff]
          omega
        refine ⟨fraction, hhead, ?_, by omega⟩
        rw [point, if_neg hne, hys]
    · contradiction

/-- The texts that are taken. -/
theorem taken_iff : (timevalFromIsoDate blanks t s).1 = 1 ↔
    ∃ head fraction : CString, head.length = 19 ∧ s = head ++ (point fraction ++ [90]) ∧
      fraction.length ≤ 9 ∧ (∀ c ∈ fraction.take 6, isdigit c = true) ∧
      (strptime blanks s).isSome := by
  constructor
  · intro h
    rw [timevalFromIsoDate] at h
    split at h
    · contradiction
    · next hends =>
      rw [not_or, not_not, not_lt] at hends
      obtain ⟨hlen, hlast⟩ := hends
      split at h
      · contradiction
      · next date rest hread =>
        split at h
        · contradiction
        · next tvUsec hfraction =>
          obtain ⟨head, fraction, hhead, rfl, hlen9⟩ :=
            exists_fraction hlen hlast (by rw [hfraction]; rfl)
          rw [fractionUsec_eq hhead hlen9] at hfraction
          split at hfraction
          · next hdigits =>
            exact ⟨head, fraction, hhead, rfl, hlen9, hdigits, by rw [hread]; rfl⟩
          · contradiction
  · rintro ⟨head, fraction, hhead, rfl, hlen, hdigits, hread⟩
    obtain ⟨date, hread⟩ := Option.isSome_iff_exists.mp hread
    rw [timevalFromIsoDate_eq blanks t hhead hlen hdigits, hread]

theorem IsFraction.take {fraction : CString} (h : IsFraction fraction) :
    ∀ c ∈ fraction.take 6, isdigit c = true := fun c hc => h.2 c (List.mem_of_mem_take hc)

/-- **A date is taken for what it is.** -/
theorem timevalFromIsoDate_isoText (blanks : Blanks) (t : Timeval) {date : Tm} {fraction : CString}
    (hdate : date.InRange) (hfraction : IsFraction fraction) :
    timevalFromIsoDate blanks t (isoText date fraction) = (1, ⟨timegm date, usec fraction⟩) := by
  rw [isoText, timevalFromIsoDate_eq blanks t (length_date19 date) hfraction.1 hfraction.take,
    strptime_date19 blanks hdate]

/-- The GNU C library skips spaces. -/
def spaces : Blanks where
  isBlank c := c = 32
  not_digit := by decide

end IsoDate

end ChilopodCaster
