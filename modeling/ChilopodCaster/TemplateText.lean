import Mathlib.Data.BitVec
import Mathlib.Tactic.LinearCombination
import ChilopodCaster.Alarms
import ChilopodCaster.Lib.Loop
import ChilopodCaster.Lib.Occurrences

/-!
# Templates of messages

The message of an alarm is made from a template, by putting a text in place of each placeholder.
The placeholders are counted first, for the length of the result, and then the text is copied. The
length is computed in a `size_t`: the difference of two lengths can be below zero, and it wraps
around. So does the length of a result that is longer than there is memory for.

## Main definitions

* `countRound`, `copyRound` — the two loops
* `strReplaceAll` — `str_replace_all`
* `buildHtmlBody` — `build_html_body`, from the template
* `ReplacesExactly` — what is expected of `str_replace_all`
* `FitsSizeT` — what it depends on

## Main results

* `run_countRound`, `run_copyRound` — both loops find the same occurrences
* `replacesExactly_iff` — the result is right when its length does not wrap around
* `substituted_of_buildHtmlBody` — a message is its template, with one placeholder after the other
  replaced
-/

namespace ChilopodCaster

open Occurrences

/-! ### The function -/

/-- `malloc`, by the size that it is asked for. What the memory holds is not known. -/
structure Malloc where
  malloc : BitVec 64 → Option (List Byte)
  length : ∀ size out, malloc size = some out → out.length = size.toNat

/-- `strstr(haystack, needle)`, as an offset. -/
def strstr (haystack needle : CString) : Option ℕ := find needle haystack

/-- One round of the loop that counts, from `p` and `count`. -/
def countRound (needle : CString) (s : CString × ℕ) : (CString × ℕ) ⊕ ℕ :=
  match strstr s.1 needle with
  | some i => .inl (s.1.drop (i + needle.length), s.2 + 1)
  | none => .inr s.2

/-- `out_len` -/
def outLen (haystack needle replacement : CString) (count : ℕ) : BitVec 64 :=
  BitVec.ofNat 64 haystack.length +
    BitVec.ofNat 64 count * (BitVec.ofNat 64 replacement.length - BitVec.ofNat 64 needle.length)

/-- The memory `out`, how far `dst` is in it, and `src`. -/
structure Copying where
  out : List Byte
  dst : ℕ
  src : CString

/-- One round of the loop that copies, or the copy of the rest. It returns the memory, and the
number of bytes that were written. A write past the end of the memory returns `none`. -/
def copyRound (needle replacement : CString) (s : Copying) :
    Copying ⊕ Option (List Byte × ℕ) :=
  match strstr s.src needle with
  | some chunk =>
    match (store s.out s.dst (s.src.take chunk)).bind fun out =>
        store out (s.dst + chunk) replacement with
    | some out =>
      .inl ⟨out, s.dst + chunk + replacement.length, s.src.drop (chunk + needle.length)⟩
    | none => .inr none
  | none =>
    .inr ((store s.out s.dst (s.src ++ [0])).map fun out => (out, s.dst + s.src.length + 1))

/-- `str_replace_all`: the memory that is returned, with the number of bytes that were written to
it, or the null pointer. A write past the end of the memory is `none`, and so is a loop that does
not end. -/
def strReplaceAll (malloc : Malloc) (haystack needle replacement : CString) :
    Option (Option (List Byte × ℕ)) := do
  let count ← Loop.run (countRound needle) (haystack.length + 1) (haystack, 0)
  match malloc.malloc (outLen haystack needle replacement count + 1) with
  | none => some none
  | some out =>
    let copied ← Loop.run (copyRound needle replacement) (haystack.length + 1) ⟨out, 0, haystack⟩
    copied.map some

/-- What is expected of `str_replace_all`: if there is memory, exactly the bytes that are allocated
are written, and they are the text with the needle replaced, and its NUL. -/
def ReplacesExactly (haystack needle replacement : CString) : Prop :=
  ∀ malloc : Malloc, ∃ r, strReplaceAll malloc haystack needle replacement = some r ∧
    ∀ out written, r = some (out, written) →
      written = out.length ∧ ∃ text, out = text ++ [0] ∧ Replaced needle replacement haystack text

/-- With `n` occurrences, the length of the result and its NUL, computed without bounds, is a
`size_t`. -/
def FitsSizeT (haystack needle replacement : CString) : Prop :=
  ∃ l, Cut needle haystack l ∧
    haystack.length + (l.length - 1) * replacement.length + 1 <
      2 ^ 64 + (l.length - 1) * needle.length

/-! ### Both loops -/

variable {haystack needle replacement text : CString} {l : List CString}

theorem strstr_piece {chunk rest : CString}
    (h : ∀ i < chunk.length, ¬ needle <+: (chunk ++ (needle ++ rest)).drop i) :
    strstr (chunk ++ (needle ++ rest)) needle = some chunk.length :=
  find_eq_some_of (prefix_drop_length chunk needle rest) h

theorem drop_piece (chunk needle rest : CString) :
    (chunk ++ (needle ++ rest)).drop (chunk.length + needle.length) = rest := by
  rw [← List.append_assoc, ← List.length_append, List.drop_left]

/-- **Counting.** -/
theorem run_countRound (hneedle : needle ≠ []) (h : Cut needle haystack l) {n : ℕ}
    (hn : haystack.length < n) (count : ℕ) :
    Loop.run (countRound needle) n (haystack, count) = some (count + (l.length - 1)) := by
  obtain ⟨n, rfl⟩ := Nat.exists_eq_succ_of_ne_zero (Nat.ne_zero_of_lt hn)
  induction h generalizing n count with
  | last hnot =>
    rw [Loop.run, countRound, strstr, find_eq_none_of hnot]
    rfl
  | @piece chunk rest l hbefore hl ih =>
    have hpos := List.length_pos_iff.mpr hneedle
    rw [List.length_append, List.length_append] at hn
    obtain ⟨m, hm⟩ := Nat.exists_eq_succ_of_ne_zero (List.length_pos_iff.mpr hl.ne_nil).ne'
    obtain ⟨n, rfl⟩ := Nat.exists_eq_succ_of_ne_zero (n := n) (by omega)
    rw [Loop.run, countRound, strstr_piece hbefore]
    dsimp only
    rw [drop_piece, ih (count + 1) n (by omega), List.length_cons, hm, Nat.succ_sub_one,
      Nat.add_sub_cancel, Nat.add_assoc, Nat.add_comm 1 m]

/-- The round that finds an occurrence, when there is room: the piece before it and the replacement
come after what was written. -/
theorem copyRound_piece {chunk rest : CString}
    (h : ∀ i < chunk.length, ¬ needle <+: (chunk ++ (needle ++ rest)).drop i)
    (done tail : List Byte) (hroom : chunk.length + replacement.length ≤ tail.length) :
    copyRound needle replacement ⟨done ++ tail, done.length, chunk ++ (needle ++ rest)⟩ =
      .inl ⟨done ++ (chunk ++ replacement) ++ tail.drop (chunk.length + replacement.length),
        (done ++ (chunk ++ replacement)).length, rest⟩ := by
  have hdone : done.length + chunk.length = (done ++ chunk).length := List.length_append.symm
  have hdone' : (done ++ chunk).length + replacement.length =
      (done ++ (chunk ++ replacement)).length := by
    simp only [List.length_append, Nat.add_assoc]
  rw [copyRound, strstr_piece h]
  dsimp only
  rw [List.take_left, store_append (by omega), Option.bind_some, hdone, ← List.append_assoc,
    store_append (by rw [List.length_drop]; omega), drop_piece, List.drop_drop, hdone']
  simp only [List.append_assoc]

/-- **Copying, when there is room.** What is written comes after what was written before. -/
theorem run_copyRound (hneedle : needle ≠ []) (h : Cut needle haystack l) {n : ℕ}
    (hn : haystack.length < n) (done tail : List Byte)
    (hroom : (replacement.intercalate l).length + 1 ≤ tail.length) :
    Loop.run (copyRound needle replacement) n ⟨done ++ tail, done.length, haystack⟩ =
      some (some (done ++ (replacement.intercalate l ++ (0 ::
          tail.drop ((replacement.intercalate l).length + 1))),
        done.length + (replacement.intercalate l).length + 1)) := by
  obtain ⟨n, rfl⟩ := Nat.exists_eq_succ_of_ne_zero (Nat.ne_zero_of_lt hn)
  induction h generalizing n done tail with
  | @last s hnot =>
    rw [List.intercalate_singleton] at hroom ⊢
    have hlength : (s ++ [0]).length = s.length + 1 := List.length_append
    rw [Loop.run, copyRound, strstr, find_eq_none_of hnot]
    dsimp only
    rw [store_append (by omega), hlength, List.append_assoc]
    rfl
  | @piece chunk rest l hbefore hl ih =>
    have hpos := List.length_pos_iff.mpr hneedle
    rw [List.length_append, List.length_append] at hn
    rw [List.intercalate_cons_of_ne_nil hl.ne_nil, List.length_append, List.length_append] at *
    obtain ⟨n, rfl⟩ := Nat.exists_eq_succ_of_ne_zero (n := n) (by omega)
    have hrun := ih (done ++ (chunk ++ replacement))
      (tail.drop (chunk.length + replacement.length)) (by rw [List.length_drop]; omega) n (by omega)
    rw [Loop.run, copyRound_piece hbefore done tail (by omega)]
    dsimp only
    rw [hrun, List.drop_drop, List.length_append, List.length_append]
    congr 3
    · simp only [List.append_assoc]
      congr 6
    · omega

/-- A write that succeeds stays in the memory. -/
theorem length_of_store {r r' s : List Byte} {rp : ℕ} (h : store r rp s = some r') :
    r'.length = r.length ∧ rp + s.length ≤ r.length := by
  rw [store] at h
  split at h
  · next hle =>
    obtain rfl := Option.some.inj h
    refine ⟨?_, hle⟩
    rw [List.length_append, List.length_append, List.length_take, List.length_drop]
    omega
  · contradiction

/-- **A copy that succeeds** stays in the memory. -/
theorem written_of_run_copyRound (h : Cut needle haystack l) {n : ℕ} {out out' : List Byte}
    {dst written : ℕ}
    (hrun : Loop.run (copyRound needle replacement) n ⟨out, dst, haystack⟩ =
      some (some (out', written))) :
    written = dst + (replacement.intercalate l).length + 1 ∧ out'.length = out.length ∧
      written ≤ out.length := by
  induction h generalizing n out dst with
  | @last s hnot =>
    cases n with
    | zero => contradiction
    | succ n =>
      rw [Loop.run, copyRound, strstr, find_eq_none_of hnot] at hrun
      obtain ⟨r, hr, heq⟩ := Option.map_eq_some_iff.mp (Option.some.inj hrun)
      obtain ⟨rfl, rfl⟩ := Prod.mk.inj heq
      obtain ⟨hlength, hle⟩ := length_of_store hr
      rw [List.length_append, List.length_singleton] at hle
      rw [List.intercalate_singleton]
      exact ⟨rfl, hlength, by omega⟩
  | @piece chunk rest l hbefore hl ih =>
    cases n with
    | zero => contradiction
    | succ n =>
      rw [Loop.run, copyRound, strstr_piece hbefore] at hrun
      dsimp only at hrun
      cases hstore : (store out dst ((chunk ++ (needle ++ rest)).take chunk.length)).bind fun out =>
          store out (dst + chunk.length) replacement with
      | none =>
        rw [hstore] at hrun
        have hnone : none = some (out', written) := Option.some.inj hrun
        contradiction
      | some out₁ =>
        rw [hstore, drop_piece] at hrun
        obtain ⟨hwritten, hlength, hle⟩ := ih hrun
        obtain ⟨out₀, hchunk, hreplacement⟩ := Option.bind_eq_some_iff.mp hstore
        have hlength₀ := (length_of_store hchunk).1
        have hlength₁ := (length_of_store hreplacement).1
        rw [List.intercalate_cons_of_ne_nil hl.ne_nil, List.length_append, List.length_append]
        exact ⟨by omega, by omega, by omega⟩

/-! ### The length -/

/-- **The length of the result**, computed with bounds, is its length up to a multiple of 2⁶⁴. -/
theorem outLen_eq (h : Cut needle haystack l) :
    outLen haystack needle replacement (l.length - 1) =
      BitVec.ofNat 64 (replacement.intercalate l).length := by
  have hlength := @length_intercalate_add _ replacement needle _ h.ne_nil
  rw [h.intercalate_eq] at hlength
  have hcast := congrArg (BitVec.ofNat 64) hlength
  rw [BitVec.ofNat_add, BitVec.ofNat_add, BitVec.ofNat_mul, BitVec.ofNat_mul] at hcast
  rw [outLen]
  linear_combination -hcast

theorem toNat_ofNat_add_one (n : ℕ) : (BitVec.ofNat 64 n + 1).toNat = (n + 1) % 2 ^ 64 := by
  have hone : (1 : BitVec 64).toNat = 1 := rfl
  rw [BitVec.toNat_add, BitVec.toNat_ofNat, hone]
  omega

/-- The bounds on the lengths. -/
theorem fitsSizeT_iff (h : Cut needle haystack l) :
    FitsSizeT haystack needle replacement ↔ (replacement.intercalate l).length + 1 < 2 ^ 64 := by
  have hlength := @length_intercalate_add _ replacement needle _ h.ne_nil
  rw [h.intercalate_eq] at hlength
  constructor
  · rintro ⟨l', hl', hlt⟩
    rw [hl'.unique h] at hlt
    omega
  · intro hlt
    exact ⟨l, h, by omega⟩

/-- **With room for the result**, the memory that is allocated holds it, and its NUL. -/
theorem strReplaceAll_of_lt (hneedle : needle ≠ []) (h : Cut needle haystack l)
    (hlt : (replacement.intercalate l).length + 1 < 2 ^ 64) (malloc : Malloc) :
    strReplaceAll malloc haystack needle replacement =
      some ((malloc.malloc (BitVec.ofNat 64 (replacement.intercalate l).length + 1)).map fun _ =>
        (replacement.intercalate l ++ [0], (replacement.intercalate l).length + 1)) := by
  have hcount := run_countRound hneedle h (Nat.lt_succ_self haystack.length) 0
  rw [Nat.zero_add] at hcount
  rw [strReplaceAll, hcount, Option.bind_eq_bind, Option.bind_some, outLen_eq h]
  cases hmalloc : malloc.malloc (BitVec.ofNat 64 (replacement.intercalate l).length + 1) with
  | none => rfl
  | some out =>
    have hlength := malloc.length _ _ hmalloc
    rw [toNat_ofNat_add_one, Nat.mod_eq_of_lt hlt] at hlength
    have hcopy := run_copyRound hneedle h (Nat.lt_succ_self haystack.length) [] out hlength.ge
    rw [List.drop_eq_nil_of_le hlength.le, List.nil_append, List.nil_append, List.length_nil,
      Nat.zero_add] at hcopy
    dsimp only
    rw [hcopy]
    rfl

/-- **What is returned** was written to memory that it fits in. -/
theorem lt_of_strReplaceAll (hneedle : needle ≠ []) (h : Cut needle haystack l) {malloc : Malloc}
    {r : List Byte × ℕ}
    (hr : strReplaceAll malloc haystack needle replacement = some (some r)) :
    (replacement.intercalate l).length + 1 < 2 ^ 64 := by
  have hcount := run_countRound hneedle h (Nat.lt_succ_self haystack.length) 0
  rw [Nat.zero_add] at hcount
  rw [strReplaceAll, hcount, Option.bind_eq_bind, Option.bind_some, outLen_eq h] at hr
  cases hmalloc : malloc.malloc (BitVec.ofNat 64 (replacement.intercalate l).length + 1) with
  | none =>
    rw [hmalloc] at hr
    have hnone : none = some r := Option.some.inj hr
    contradiction
  | some out =>
    rw [hmalloc] at hr
    obtain ⟨copied, hcopied, hr⟩ := Option.bind_eq_some_iff.mp hr
    obtain ⟨⟨out', written⟩, rfl, -⟩ := Option.map_eq_some_iff.mp hr
    obtain ⟨hwritten, -, hle⟩ := written_of_run_copyRound h hcopied
    rw [malloc.length _ _ hmalloc, toNat_ofNat_add_one] at hle
    have hmod := Nat.mod_lt ((replacement.intercalate l).length + 1) (Nat.two_pow_pos 64)
    omega

/-- Memory that is never short. -/
def zeros : Malloc where
  malloc := fun size => some (List.replicate size.toNat 0)
  length := fun size out h => by rw [← Option.some.inj h, List.length_replicate]

theorem lt_of_replacesExactly (hneedle : needle ≠ []) (h : Cut needle haystack l)
    (hall : ReplacesExactly haystack needle replacement) :
    (replacement.intercalate l).length + 1 < 2 ^ 64 := by
  obtain ⟨r, hr, -⟩ := hall zeros
  cases r with
  | none =>
    have hcount := run_countRound hneedle h (Nat.lt_succ_self haystack.length) 0
    rw [strReplaceAll, hcount, Option.bind_eq_bind, Option.bind_some] at hr
    obtain ⟨copied, -, hr⟩ := Option.bind_eq_some_iff.mp hr
    obtain ⟨_, -, hnone⟩ := Option.map_eq_some_iff.mp hr
    contradiction
  | some r => exact lt_of_strReplaceAll hneedle h hr

/-- **The result is right when its length does not wrap around.** -/
theorem replacesExactly_iff (haystack replacement : CString) (hneedle : needle ≠ []) :
    ReplacesExactly haystack needle replacement ↔ FitsSizeT haystack needle replacement := by
  obtain ⟨l, hl⟩ := exists_cut hneedle haystack
  rw [fitsSizeT_iff hl]
  refine ⟨lt_of_replacesExactly hneedle hl, fun hlt malloc => ?_⟩
  refine ⟨_, strReplaceAll_of_lt hneedle hl hlt malloc, fun out written h => ?_⟩
  obtain ⟨_, -, heq⟩ := Option.map_eq_some_iff.mp h
  obtain ⟨rfl, rfl⟩ := Prod.mk.inj heq
  refine ⟨?_, _, rfl, l, hl, rfl⟩
  rw [List.length_append, List.length_singleton]

/-- A needle that overlaps itself. -/
theorem replacesExactly_overlap : ReplacesExactly (cstr "aaa") (cstr "aa") (cstr "<aa>") := by
  have hcut : Cut (cstr "aa") ([] ++ (cstr "aa" ++ cstr "a")) [[], cstr "a"] :=
    .piece (fun i hi => absurd hi (Nat.not_lt_zero i)) (.last (find_eq_none (by decide)))
  exact (replacesExactly_iff _ _ (by decide)).mpr ⟨[[], cstr "a"], hcut, by decide⟩

/-- A letter that is repeated. -/
theorem cut_replicate (c : Byte) (n : ℕ) :
    Cut [c] (List.replicate n c) (List.replicate (n + 1) []) := by
  induction n with
  | zero =>
    refine .last fun i h => ?_
    rw [List.replicate_zero, List.drop_nil, List.prefix_nil] at h
    exact List.cons_ne_nil c [] h
  | succ n ih =>
    have hcut : Cut [c] ([] ++ ([c] ++ List.replicate n c)) ([] :: List.replicate (n + 1) []) :=
      .piece (fun i hi => absurd hi (Nat.not_lt_zero i)) ih
    exact hcut

/-- With 2³³ occurrences of a letter, and 2³¹ letters for each, the length is 2⁶⁴. It wraps around
to zero. -/
theorem not_replacesExactly_long :
    ¬ ∀ haystack needle replacement : CString, needle ≠ [] →
      ReplacesExactly haystack needle replacement := by
  intro hall
  have hcut := cut_replicate 120 8589934592
  have hlt := lt_of_replacesExactly (List.cons_ne_nil _ _) hcut
    (hall (List.replicate 8589934592 120) [120] (List.replicate 2147483648 121)
      (List.cons_ne_nil _ _))
  have hlength := @length_intercalate_add _ (List.replicate 2147483648 (121 : Byte)) [120] _
    hcut.ne_nil
  rw [hcut.intercalate_eq, List.length_replicate, List.length_replicate, List.length_replicate,
    List.length_singleton] at hlength
  omega

/-! ### The message of an alarm -/

/-- `struct alarm_type_style` -/
structure AlarmTypeStyle where
  label : CString
  accent : CString
  accentBg : CString

/-- `alarm_type_styles` -/
def alarmTypeStyles : AlarmEventType → AlarmTypeStyle
  | .stationOffline => ⟨cstr "Station Offline", cstr "#ef4444", cstr "#fef2f2"⟩
  | .stationOnline => ⟨cstr "Back Online", cstr "#22c55e", cstr "#f0fdf4"⟩
  | .lowSv => ⟨cstr "Low Satellite Count", cstr "#d97706", cstr "#fffbeb"⟩
  | .positionDrift => ⟨cstr "Position Drift", cstr "#a855f7", cstr "#faf5ff"⟩

/-- The placeholders of a template, and what is put in place of them. -/
def placeholders (type : AlarmEventType) (mountpoint summary timeBuf : CString) :
    List (CString × CString) :=
  [(cstr "\x7b\x7bACCENT\x7d\x7d", (alarmTypeStyles type).accent),
    (cstr "\x7b\x7bACCENT_BG\x7d\x7d", (alarmTypeStyles type).accentBg),
    (cstr "\x7b\x7bMOUNTPOINT\x7d\x7d", mountpoint),
    (cstr "\x7b\x7bTYPE_LABEL\x7d\x7d", (alarmTypeStyles type).label),
    (cstr "\x7b\x7bSUMMARY\x7d\x7d", summary),
    (cstr "\x7b\x7bTIME\x7d\x7d", timeBuf)]

/-- One of the `steps`, on the result of the one before. The null pointer is not looked for, and
reading from it is `none`. -/
def buildStep (malloc : Malloc) (step : Option CString) (p : CString × CString) :
    Option (Option CString) :=
  step.bind fun haystack => (strReplaceAll malloc haystack p.1 p.2).map fun r =>
    r.map fun r => r.1.takeWhile (· ≠ 0)

/-- `build_html_body`, when the template has been read. -/
def buildHtmlBody (malloc : Malloc) (type : AlarmEventType)
    (tmpl mountpoint summary timeBuf : CString) : Option (Option CString) :=
  (placeholders type mountpoint summary timeBuf).foldlM (buildStep malloc) (some tmpl)

/-- One pattern after the other is replaced. -/
def Substituted : List (CString × CString) → CString → CString → Prop
  | [], s, t => s = t
  | p :: l, s, t => ∃ u, Replaced p.1 p.2 s u ∧ Substituted l u t

theorem not_mem_of_replaced {c : Byte} {s t : CString} (hs : c ∉ s) (hsep : c ∉ replacement)
    (h : Replaced needle replacement s t) : c ∉ t := by
  obtain ⟨l, hl, rfl⟩ := h
  induction hl with
  | last => rwa [List.intercalate_singleton]
  | piece hbefore hl ih =>
    rw [List.mem_append, List.mem_append] at hs
    rw [List.intercalate_cons_of_ne_nil hl.ne_nil, List.mem_append, List.mem_append]
    rintro ((hc | hc) | hc)
    · exact hs (.inl hc)
    · exact hsep hc
    · exact ih (fun hc => hs (.inr (.inr hc))) hc

/-- One step, and what it returns. -/
theorem replaced_of_buildStep {malloc : Malloc} {p : CString × CString} {s t : CString}
    (hp : p.1 ≠ []) (hnul : 0 ∉ p.2) (hs : 0 ∉ s)
    (h : buildStep malloc (some s) p = some (some t)) : Replaced p.1 p.2 s t ∧ 0 ∉ t := by
  obtain ⟨l, hl⟩ := exists_cut hp s
  obtain ⟨r, hr, hmap⟩ := Option.map_eq_some_iff.mp h
  obtain ⟨r, rfl, ht⟩ := Option.map_eq_some_iff.mp hmap
  have hlt := lt_of_strReplaceAll hp hl hr
  rw [strReplaceAll_of_lt hp hl hlt malloc] at hr
  obtain ⟨out, -, rfl⟩ := Option.map_eq_some_iff.mp (Option.some.inj hr)
  have hreplaced : Replaced p.1 p.2 s (p.2.intercalate l) := ⟨l, hl, rfl⟩
  have hnul' := not_mem_of_replaced hs hnul hreplaced
  have htake : (p.2.intercalate l ++ [0]).takeWhile (· ≠ 0) = p.2.intercalate l := by
    have hne : ∀ c ∈ p.2.intercalate l, decide (c ≠ 0) = true :=
      fun c hc => decide_eq_true fun hc0 => hnul' (hc0 ▸ hc)
    rw [List.takeWhile_append_of_pos hne]
    exact List.append_nil _
  rw [← ht, htake]
  exact ⟨hreplaced, hnul'⟩

/-- The steps, one after the other. -/
theorem substituted_of_foldlM {malloc : Malloc} {l : List (CString × CString)} {s t : CString}
    (hl : ∀ p ∈ l, p.1 ≠ [] ∧ 0 ∉ p.2) (hs : 0 ∉ s)
    (h : l.foldlM (buildStep malloc) (some s) = some (some t)) : Substituted l s t := by
  induction l generalizing s with
  | nil => exact Option.some.inj (Option.some.inj h)
  | cons p l ih =>
    obtain ⟨hp, hl⟩ := List.forall_mem_cons.mp hl
    rw [List.foldlM_cons] at h
    obtain ⟨step, hstep, h⟩ := Option.bind_eq_some_iff.mp h
    cases step with
    | none =>
      -- the next step, and the last one, cannot read from the null pointer
      cases l with
      | nil => exact absurd (Option.some.inj h) (Option.some_ne_none t).symm
      | cons p' l => contradiction
    | some u =>
      obtain ⟨hreplaced, hu⟩ := replaced_of_buildStep hp.1 hp.2 hs hstep
      exact ⟨u, hreplaced, ih hl hu h⟩

/-- **A message** is its template, with one placeholder after the other replaced. What is put in
place of one is searched for those that follow. -/
theorem substituted_of_buildHtmlBody {malloc : Malloc} {type : AlarmEventType}
    {tmpl mountpoint summary timeBuf t : CString} (htmpl : 0 ∉ tmpl) (hmountpoint : 0 ∉ mountpoint)
    (hsummary : 0 ∉ summary) (htime : 0 ∉ timeBuf)
    (h : buildHtmlBody malloc type tmpl mountpoint summary timeBuf = some (some t)) :
    Substituted (placeholders type mountpoint summary timeBuf) tmpl t := by
  have hstyle : ∀ type, 0 ∉ (alarmTypeStyles type).accent ∧ 0 ∉ (alarmTypeStyles type).accentBg ∧
      0 ∉ (alarmTypeStyles type).label := by
    intro type
    cases type <;> decide
  obtain ⟨haccent, hbg, hlabel⟩ := hstyle type
  refine substituted_of_foldlM ?_ htmpl h
  simp only [placeholders, List.forall_mem_cons]
  exact ⟨⟨by decide, haccent⟩, ⟨by decide, hbg⟩, ⟨by decide, hmountpoint⟩, ⟨by decide, hlabel⟩,
    ⟨by decide, hsummary⟩, ⟨by decide, htime⟩, fun _ hp => absurd hp List.not_mem_nil⟩

end ChilopodCaster
