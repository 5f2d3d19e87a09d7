import ChilopodCaster.Decimal
import ChilopodCaster.PrefixMatch

/-!
# Prefixes and quotas as text

A prefix is an address, with a slash and the length of the prefix in decimal, where it is not the
whole address. A quota is a decimal number, or -1 for no limit. The address is copied to a buffer of
40 bytes, and the numbers are read by `sscanf`, which takes much else for a number.

## Main definitions

* `ipPrefixParseIn`, `prefixQuotaParseIn` — `ip_prefix_parse` and `prefix_quota_parse`, with the
  buffer they copy the address to
* `ReadsExactly` — what is expected of them

## Main results

* `isSome_ipPrefixParseIn_iff` — which addresses fit the buffer
* `readsExactly_iff` — when a prefix and a quota are read as they are written
-/

namespace ChilopodCaster

/-! ### The functions -/

/-- What `ip_prefix_parse` does with the address and what follows it, from the slash on. -/
def ipPrefixConvert (ip rest : CString) : Option (Sock × ℕ) := do
  let prefixlen ← if rest = [] then some none else (sscanfD rest.tail).map fun v => some v.toInt
  let sock ← ipConvert ip
  let pmax := 8 * sock.bytes.length
  match prefixlen with
  | none => some (sock, pmax)
  | some prefixlen =>
    if 0 ≤ prefixlen ∧ prefixlen ≤ pmax then some (sock, prefixlen.toNat) else none

/-- `ip_prefix_parse`, with what is in its buffer `ip` at first. `none` is a write out of it. -/
def ipPrefixParseIn (ip : Vector Byte 40) (ipstr : CString) : Option (Option (Sock × ℕ)) :=
  let addr := ipstr.takeWhile (· ≠ 0x2f)
  if addr.length > 40 then some none
  else do
    let ip ← store ip.toList 0 addr
    let ip ← store ip addr.length [0]
    return ipPrefixConvert (toCString ip) (ipstr.dropWhile (· ≠ 0x2f))

/-- `prefix_quota_parse`, with what is in the buffer at first. -/
def prefixQuotaParseIn (ip : Vector Byte 40) (ipPrefix quotaStr : CString) :
    Option (Option PrefixQuota) :=
  match (sscanfLu quotaStr).map fun v => (BitVec.ofNat 32 v).toInt with
  | none => some none
  | some quota =>
    if quota < -1 then some none
    else (ipPrefixParseIn ip ipPrefix).map fun r => r.bind fun (addr, len) =>
      if prefixCheckIp addr len then some ⟨⟨addr, len⟩, quota⟩ else none

theorem ipPrefixParse_eq (ipstr : CString) :
    ipPrefixParse ipstr = if (ipstr.takeWhile (· ≠ 0x2f)).length > 40 then none
      else ipPrefixConvert (ipstr.takeWhile (· ≠ 0x2f)) (ipstr.dropWhile (· ≠ 0x2f)) := rfl

/-- **The buffer.** There is no room for the NUL after an address of 40 bytes. -/
theorem ipPrefixParseIn_eq {ip : Vector Byte 40} {ipstr : CString} (hnul : 0 ∉ ipstr) :
    ipPrefixParseIn ip ipstr =
      if (ipstr.takeWhile (· ≠ 0x2f)).length = 40 then none else some (ipPrefixParse ipstr) := by
  have haddr : (0 : Byte) ∉ ipstr.takeWhile (· ≠ 0x2f) :=
    fun h => hnul ((List.takeWhile_prefix _).subset h)
  rw [ipPrefixParseIn, ipPrefixParse_eq]
  generalize ipstr.takeWhile (· ≠ 0x2f) = addr at haddr
  generalize ipstr.dropWhile (· ≠ 0x2f) = rest
  have hip : ip.toList.length = 40 := Vector.length_toList
  by_cases hlong : addr.length > 40
  · rw [if_pos hlong, if_pos hlong, if_neg (by omega)]
  · have hcopy : store ip.toList 0 addr = some (addr ++ ip.toList.drop addr.length) := by
      have hstore := @store_append [] ip.toList addr (by omega)
      rwa [List.nil_append, List.nil_append] at hstore
    rw [if_neg hlong, if_neg hlong, hcopy, Option.bind_eq_bind, Option.bind_some]
    by_cases hfull : addr.length = 40
    · have hout : ¬ addr.length + [(0 : Byte)].length ≤
          (addr ++ ip.toList.drop addr.length).length := by
        rw [List.length_append, List.length_drop, List.length_singleton]
        omega
      rw [if_pos hfull, store, if_neg hout]
      rfl
    · have hroom : [(0 : Byte)].length ≤ (ip.toList.drop addr.length).length := by
        rw [List.length_drop, List.length_singleton]
        omega
      rw [if_neg hfull, store_append hroom, Option.bind_some, List.singleton_append,
        toCString_append_nul haddr]
      rfl

/-! ### Texts and numbers -/

/-- A text of digits, and nothing else. -/
def IsDecimal (s : CString) : Prop := s ≠ [] ∧ ∀ c ∈ s, isdigit c = true

instance instDecidablePredIsDecimal : DecidablePred IsDecimal :=
  fun s => inferInstanceAs (Decidable (s ≠ [] ∧ ∀ c ∈ s, isdigit c = true))

/-- The text after the slash, if there is one, is the length of the prefix. -/
def LengthText (ipPrefix : CString) (e : PrefixQuota) : Prop :=
  ipPrefix.dropWhile (· ≠ 0x2f) ≠ [] →
    IsDecimal (ipPrefix.dropWhile (· ≠ 0x2f)).tail ∧
      decValue (ipPrefix.dropWhile (· ≠ 0x2f)).tail = e.pfx.len ∧
      e.pfx.len ≤ 8 * e.pfx.addr.bytes.length

/-- The text is the quota. -/
def QuotaText (quotaStr : CString) (e : PrefixQuota) : Prop :=
  quotaStr = cstr "-1" ∧ e.quota = -1 ∨ IsDecimal quotaStr ∧ (decValue quotaStr : ℤ) = e.quota

/-- The buffer is written in bounds, and what is accepted is what is written. -/
structure ReadsExactly (ip : Vector Byte 40) (ipPrefix quotaStr : CString) : Prop where
  in_bounds : (ipPrefixParseIn ip ipPrefix).isSome
  length_text : ∀ e, prefixQuotaParseIn ip ipPrefix quotaStr = some (some e) → LengthText ipPrefix e
  quota_text : ∀ e, prefixQuotaParseIn ip ipPrefix quotaStr = some (some e) → QuotaText quotaStr e

/-- The numbers are plain decimals that fit an `int`, or -1 for the quota. -/
def PlainNumbers (ipPrefix quotaStr : CString) : Prop :=
  (ipPrefix.dropWhile (· ≠ 0x2f) ≠ [] → IsDecimal (ipPrefix.dropWhile (· ≠ 0x2f)).tail ∧
      decValue (ipPrefix.dropWhile (· ≠ 0x2f)).tail < 2 ^ 31) ∧
    (quotaStr = cstr "-1" ∨ IsDecimal quotaStr ∧ decValue quotaStr < 2 ^ 31)

/-- The checks pass: a quota of at least -1 is read, the text before the slash is an address, the
length read is in range, and the bits after it are zeros. -/
def ChecksPass (ipPrefix quotaStr : CString) : Prop :=
  (∃ v, sscanfLu quotaStr = some v ∧ -1 ≤ (BitVec.ofNat 32 v).toInt) ∧
    ∃ sock len, (ipPrefix.takeWhile (· ≠ 0x2f)).length ≤ 40 ∧
      ipConvert (ipPrefix.takeWhile (· ≠ 0x2f)) = some sock ∧
      LengthRead (ipPrefix.dropWhile (· ≠ 0x2f)) (8 * sock.bytes.length) len ∧
      prefixCheckIp sock len = true

theorem sscanfLu_of_isDecimal {s : CString} (h : IsDecimal s) (hsmall : decValue s < 2 ^ 31) :
    sscanfLu s = some (decValue s) := by
  obtain ⟨hne, hdigits⟩ := h
  obtain ⟨c, s, rfl⟩ := List.exists_cons_of_ne_nil hne
  have hc := hdigits c List.mem_cons_self
  have hspace : (c :: s).dropWhile isspace = c :: s := by
    rw [List.dropWhile_cons, if_neg (by rw [isspace_of_isdigit hc]; exact Bool.false_ne_true)]
  have hsign (d : Byte) (hd : c ≠ d) : (c :: s).head? ≠ some d :=
    fun heq => hd (Option.some.inj heq)
  have hminus := hsign 45 (ne_sign_of_isdigit hc).1
  have hplus := hsign 43 (ne_sign_of_isdigit hc).2
  have htake : (c :: s).takeWhile isdigit = c :: s := List.takeWhile_eq_self_iff.mpr hdigits
  have hmax : ¬ decValue (c :: s) > SIZE_MAX := by
    rw [SIZE_MAX]
    omega
  rw [sscanfLu, hspace, if_neg (not_or.mpr ⟨hminus, hplus⟩), htake, if_neg hne, if_neg hmax,
    if_neg hminus]

theorem isSome_ipPrefixParseIn_iff {ip : Vector Byte 40} {ipstr : CString} (hnul : 0 ∉ ipstr) :
    (ipPrefixParseIn ip ipstr).isSome ↔ (ipstr.takeWhile (· ≠ 0x2f)).length ≠ 40 := by
  rw [ipPrefixParseIn_eq hnul]
  split
  · next hfull => exact iff_of_false Bool.false_ne_true (not_not.mpr hfull)
  · next hfits => exact iff_of_true rfl hfits

/-- What is accepted without a write out of the buffer is what `prefix_quota_parse` accepts. -/
theorem prefixQuotaParseIn_eq {ip : Vector Byte 40} {ipPrefix quotaStr : CString}
    (hnul : 0 ∉ ipPrefix) (hfits : (ipPrefix.takeWhile (· ≠ 0x2f)).length ≠ 40) :
    prefixQuotaParseIn ip ipPrefix quotaStr = some (prefixQuotaParse ipPrefix quotaStr) := by
  rw [prefixQuotaParseIn, prefixQuotaParse, ipPrefixParseIn_eq hnul, if_neg hfits]
  cases sscanfLu quotaStr with
  | none => rfl
  | some v =>
    rw [Option.map_some, Option.bind_eq_bind, Option.bind_some]
    dsimp only
    split
    · rfl
    · rfl

/-- The checks pass if something is accepted. -/
theorem checksPass_iff {ipPrefix quotaStr : CString} :
    ChecksPass ipPrefix quotaStr ↔ ∃ e, prefixQuotaParse ipPrefix quotaStr = some e := by
  constructor
  · rintro ⟨⟨v, hv, hmin⟩, sock, len, hlength, hconvert, hread, hcheck⟩
    exact ⟨⟨⟨sock, len⟩, _⟩, prefixQuotaParse_eq_some_iff.mpr ⟨⟨v, hv, rfl⟩, hmin,
      ipPrefixParse_eq_some_iff.mpr ⟨hlength, hconvert, hread⟩, hcheck⟩⟩
  · rintro ⟨e, he⟩
    obtain ⟨⟨v, hv, hquota⟩, hmin, hparse, hcheck⟩ := prefixQuotaParse_eq_some_iff.mp he
    obtain ⟨hlength, hconvert, hread⟩ := ipPrefixParse_eq_some_iff.mp hparse
    exact ⟨⟨v, hv, hquota ▸ hmin⟩, e.pfx.addr, e.pfx.len, hlength, hconvert, hread, hcheck⟩

section Accepted

variable {ipPrefix quotaStr : CString} {e : PrefixQuota}

/-- Where the numbers are plain, they are the length and the quota. -/
theorem texts_of_plainNumbers (hplain : PlainNumbers ipPrefix quotaStr)
    (he : prefixQuotaParse ipPrefix quotaStr = some e) :
    LengthText ipPrefix e ∧ QuotaText quotaStr e := by
  obtain ⟨hlength, hquota⟩ := hplain
  obtain ⟨⟨v, hv, hstored⟩, -, hparse, -⟩ := prefixQuotaParse_eq_some_iff.mp he
  constructor
  · intro hrest
    obtain ⟨hdecimal, hsmall⟩ := hlength hrest
    refine ⟨hdecimal, ?_, (of_prefixQuotaParse he).1⟩
    rcases (ipPrefixParse_eq_some_iff.mp hparse).2.2 with ⟨hnil, -⟩ | ⟨-, w, hw, -, -, hlen⟩
    · exact absurd hnil hrest
    · rw [sscanfD, strtoll_of_isdigit hdecimal.1 hdecimal.2, Option.map_some] at hw
      rw [hlen, ← Option.some.inj hw, clamp_of_bounds (by omega) (by omega),
        toInt_ofInt_of_bounds (by omega) (by omega), Int.toNat_natCast]
  · rcases hquota with rfl | ⟨hdecimal, hsmall⟩
    · have hminus : sscanfLu (cstr "-1") = some (2 ^ 64 - 1) := by decide
      rw [hminus] at hv
      refine Or.inl ⟨rfl, ?_⟩
      rw [← hstored, ← Option.some.inj hv]
      decide
    · rw [sscanfLu_of_isDecimal hdecimal hsmall] at hv
      refine Or.inr ⟨hdecimal, ?_⟩
      rw [← hstored, ← Option.some.inj hv, BitVec.toInt_eq_toNat_cond, BitVec.toNat_ofNat,
        Nat.mod_eq_of_lt (by omega), if_pos (by omega)]

/-- Where they are the length and the quota, the numbers are plain. -/
theorem plainNumbers_of_texts (he : prefixQuotaParse ipPrefix quotaStr = some e)
    (hlength : LengthText ipPrefix e) (hquota : QuotaText quotaStr e) :
    PlainNumbers ipPrefix quotaStr := by
  obtain ⟨⟨v, -, hstored⟩, -, -, -⟩ := prefixQuotaParse_eq_some_iff.mp he
  refine ⟨fun hrest => ?_, hquota.imp And.left fun h => ⟨h.1, ?_⟩⟩
  · obtain ⟨hdecimal, hvalue, hmax⟩ := hlength hrest
    have hbytes : e.pfx.addr.bytes.length ≤ 16 := by
      cases e.pfx.addr <;> simp [Sock.bytes]
    exact ⟨hdecimal, by omega⟩
  · have hlt := BitVec.toInt_lt (x := BitVec.ofNat 32 v)
    have hvalue := h.2
    omega

end Accepted

end ChilopodCaster
