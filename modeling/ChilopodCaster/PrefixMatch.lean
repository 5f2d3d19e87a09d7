import ChilopodCaster.AccountFiles
import ChilopodCaster.Lib.Bits

/-!
# Quotas by longest prefix

The quota of an address is that of the longest prefix that the address is in. The entries are added
to a table that grows, the table is sorted by the length of the prefixes, and it is searched from
its end. An address is in a prefix if their leading bits are the same. These are compared byte by
byte, and the last ones under a mask.

## Main definitions

* `Matches` — the leading bits of an address are those of a prefix
* `LongestPrefix` — what the quota of an address should be

## Main results

* `ipInPrefix_iff` — the comparison of bytes is one of bits
* `prefixCheckIp_iff` — the bits after a prefix are checked to be zeros
* `getQuota_longestPrefix` — the search finds a longest prefix
-/

namespace ChilopodCaster

open Bits

/-! ### Bits of addresses -/

/-- The bits of an address, as many as a prefix is long, are those of the prefix. -/
def Matches (pfx : Prefix) (addr : Sock) : Prop :=
  pfx.addr.sameFamily addr = true ∧
    (bitsOf addr.bytes).take pfx.len = (bitsOf pfx.addr.bytes).take pfx.len

/-- The mask of `ip_in_prefix` for the last byte leaves the bits that are not compared. -/
theorem and_lastmask_eq_zero_iff (a b : Byte) {r : ℕ} (hr : r < 8) :
    (a ^^^ b) &&& ~~~(0xff#8 >>> r) = 0 ↔
      (toBits 8 a.toNat).take r = (toBits 8 b.toNat).take r := by
  have hmask : ∀ x : Byte, ∀ r < 8, x &&& ~~~(0xff#8 >>> r) = 0 ↔ x.toNat >>> (8 - r) = 0 := by
    decide +kernel
  rw [hmask _ r hr, take_toBits hr.le, take_toBits hr.le, BitVec.toNat_xor,
    Nat.shiftRight_xor_distrib, Nat.xor_eq_zero_iff]
  constructor
  · exact fun h => congrArg _ h
  · intro h
    have hlt (c : Byte) : c.toNat >>> (8 - r) < 2 ^ r := by
      rw [Nat.shiftRight_eq_div_pow]
      refine Nat.div_lt_of_lt_mul ?_
      rw [← pow_add, Nat.sub_add_cancel hr.le]
      exact c.isLt
    have hval := congrArg ofBits h
    rwa [ofBits_toBits, ofBits_toBits, Nat.mod_eq_of_lt (hlt a), Nat.mod_eq_of_lt (hlt b)] at hval

theorem length_bytes_of_sameFamily {a b : Sock} (h : a.sameFamily b = true) :
    a.bytes.length = b.bytes.length := by
  cases a <;> cases b <;> first | contradiction | simp [Sock.bytes]

/-- Bits up to a position inside a byte. -/
theorem take_bitsOf_eq_iff {d d' : List Byte} (h : d.length = d'.length) {len : ℕ}
    (hlen : len ≤ 8 * d.length) :
    (bitsOf d).take len = (bitsOf d').take len ↔
      d.take (len / 8) = d'.take (len / 8) ∧
        (toBits 8 (d.getD (len / 8) 0).toNat).take (len % 8) =
          (toBits 8 (d'.getD (len / 8) 0).toNat).take (len % 8) := by
  have htake (d : List Byte) (hlen : len ≤ 8 * d.length) :
      (bitsOf d).take len = bitsOf (d.take (len / 8)) ++
        (toBits 8 (d.getD (len / 8) 0).toNat).take (len % 8) := by
    have hsplit : len = 8 * (len / 8) + len % 8 := (Nat.div_add_mod len 8).symm
    conv_lhs => rw [hsplit, List.take_add, take_bitsOf, drop_bitsOf]
    by_cases hr : len % 8 = 0
    · rw [hr, List.take_zero, List.take_zero]
    · have hlt : len / 8 < d.length := by omega
      rw [List.drop_eq_getElem_cons hlt, bitsOf_cons, List.getD_eq_getElem _ _ hlt,
        List.take_append_of_le_length]
      rw [length_toBits]
      omega
  rw [htake d hlen, htake d' (h ▸ hlen)]
  constructor
  · intro heq
    have hlength : (bitsOf (d.take (len / 8))).length = (bitsOf (d'.take (len / 8))).length := by
      rw [length_bitsOf, length_bitsOf, List.length_take, List.length_take, h]
    obtain ⟨hbytes, hbits⟩ := List.append_inj heq hlength
    exact ⟨bitsOf_injective hbytes, hbits⟩
  · rintro ⟨hbytes, hbits⟩
    rw [hbytes, hbits]

/-- **An address in a prefix.** -/
theorem ipInPrefix_iff {pfx : Prefix} (hlen : pfx.len ≤ 8 * pfx.addr.bytes.length) (addr : Sock) :
    ipInPrefix pfx addr = true ↔ Matches pfx addr := by
  rw [ipInPrefix, Matches, Bool.and_eq_true, Bool.and_eq_true, and_assoc]
  refine and_congr_right fun hfamily => ?_
  have hlength := length_bytes_of_sameFamily hfamily
  rw [take_bitsOf_eq_iff hlength.symm (hlength ▸ hlen), decide_eq_true_iff, decide_eq_true_iff,
    and_lastmask_eq_zero_iff _ _ (Nat.mod_lt _ (by decide))]
  refine and_congr_right fun _ => or_iff_right_of_imp fun hzero => ?_
  have hmask : ∀ r < 8, ~~~(0xff#8 >>> r) = 0 → r = 0 := by decide
  rw [hmask _ (Nat.mod_lt _ (by decide)) hzero, List.take_zero, List.take_zero]

/-! ### Zeros after the prefix -/

theorem forall_mem_bitsOf (d : List Byte) : (∀ b ∈ bitsOf d, b = false) ↔ ∀ c ∈ d, c = 0 := by
  have hbyte : ∀ c : Byte, (∀ b ∈ toBits 8 c.toNat, b = false) ↔ c = 0 := by decide +kernel
  induction d with
  | nil => exact iff_of_true (List.forall_mem_nil _) (List.forall_mem_nil _)
  | cons c d ih =>
    rw [bitsOf_cons, List.forall_mem_append, hbyte, List.forall_mem_cons]
    exact and_congr_right fun _ => ih

/-- **The check of a prefix.** -/
theorem prefixCheckIp_iff {sock : Sock} {prefixlen : ℕ} (hlen : prefixlen ≤ 8 * sock.bytes.length) :
    prefixCheckIp sock prefixlen = true ↔
      ∀ b ∈ (bitsOf sock.bytes).drop prefixlen, b = false := by
  rw [prefixCheckIp, Bool.and_eq_true, Bool.or_eq_true, decide_eq_true_iff, decide_eq_true_iff,
    List.take_reverse, List.all_reverse]
  generalize sock.bytes = d at hlen
  have hzeros (k : ℕ) : (d.drop k).all (fun c => decide (c = 0)) = true ↔
      ∀ b ∈ bitsOf (d.drop k), b = false := by
    rw [forall_mem_bitsOf, List.all_eq_true]
    exact forall₂_congr fun c _ => decide_eq_true_iff
  rw [hzeros]
  have hsplit : prefixlen = 8 * (prefixlen / 8) + prefixlen % 8 := (Nat.div_add_mod _ 8).symm
  have hdrop : (bitsOf d).drop prefixlen =
      (bitsOf (d.drop (prefixlen / 8))).drop (prefixlen % 8) := by
    conv_lhs => rw [hsplit, ← List.drop_drop, drop_bitsOf]
  rw [hdrop]
  by_cases hr : prefixlen % 8 = 0
  · have hbytes : d.length - (8 * d.length - prefixlen) / 8 = prefixlen / 8 := by omega
    have hbits : (8 * d.length - prefixlen) % 8 = 0 := by omega
    rw [hr, List.drop_zero, hbytes]
    exact and_iff_left (Or.inl hbits)
  · have hlt : prefixlen / 8 < d.length := by omega
    have hbytes : d.length - (8 * d.length - prefixlen) / 8 = prefixlen / 8 + 1 := by omega
    have hbits : (8 * d.length - prefixlen) % 8 = 8 - prefixlen % 8 := by omega
    have hlast : d.reverse.getD ((8 * d.length - prefixlen) / 8) 0 = d[prefixlen / 8] := by
      have hindex : d.length - 1 - (8 * d.length - prefixlen) / 8 = prefixlen / 8 := by omega
      rw [List.getD_eq_getElem _ _ (by rw [List.length_reverse]; omega), List.getElem_reverse]
      simp only [hindex]
    have hbyte : ∀ c : Byte, ∀ r < 8, (∀ b ∈ (toBits 8 c.toNat).drop r, b = false) ↔
        c.toNat % 2 ^ (8 - r) = 0 := by decide +kernel
    have hpos : ¬ 8 - prefixlen % 8 = 0 := by omega
    rw [hbytes, hbits, hlast, List.drop_eq_getElem_cons hlt, bitsOf_cons,
      List.drop_append_of_le_length (by rw [length_toBits]; omega), List.forall_mem_append,
      hbyte _ _ (Nat.mod_lt _ (by decide)), or_iff_right hpos, and_comm]

/-! ### Tables that grow -/

/-- `struct _monofamily_prefix_table`: the pointers that are set, and the room for them. -/
structure MonofamilyPrefixTable where
  entries : List PrefixQuota
  maxentries : ℕ

/-- `_monofamily_prefix_table_add`, with memory for a larger table or not. `none` is a write out of
the bounds of the table. -/
def MonofamilyPrefixTable.add (this : MonofamilyPrefixTable) (newEntry : PrefixQuota)
    (memory : Bool) : Option (MonofamilyPrefixTable × ℤ) :=
  let full : Bool := this.entries.length + 1 ≥ this.maxentries
  if full && !memory then some (this, -1)
  else
    let newSize := if this.maxentries ≠ 0 then this.maxentries * 2 else 2
    let maxentries := if full then newSize else this.maxentries
    if this.entries.length < maxentries then some (⟨this.entries ++ [newEntry], maxentries⟩, 0)
    else none

/-- `struct prefix_table`, with the room in its two tables. -/
structure PrefixTables where
  v6Table : MonofamilyPrefixTable
  v4Table : MonofamilyPrefixTable

/-- `prefix_table_new`. -/
def PrefixTables.new : PrefixTables := ⟨⟨[], 0⟩, ⟨[], 0⟩⟩

/-- `prefix_table_add`. -/
def PrefixTables.add (this : PrefixTables) (newEntry : PrefixQuota) (memory : Bool) :
    Option (PrefixTables × ℤ) :=
  match newEntry.pfx.addr with
  | .inet6 _ => (this.v6Table.add newEntry memory).map fun r => ({ this with v6Table := r.1 }, r.2)
  | _ => (this.v4Table.add newEntry memory).map fun r => ({ this with v4Table := r.1 }, r.2)

/-- The entries of the tables. -/
def PrefixTables.toTable (this : PrefixTables) : PrefixTable :=
  ⟨this.v6Table.entries, this.v4Table.entries⟩

/-- There is room for the entries that are set. -/
def MonofamilyPrefixTable.Fits (this : MonofamilyPrefixTable) : Prop :=
  this.entries.length ≤ this.maxentries

/-- **A table that grows.** The entry is written in bounds. -/
theorem MonofamilyPrefixTable.add_eq {this : MonofamilyPrefixTable} (h : this.Fits)
    (newEntry : PrefixQuota) :
    ∃ that, this.add newEntry true = some (that, 0) ∧ that.Fits ∧
      that.entries = this.entries ++ [newEntry] := by
  rw [MonofamilyPrefixTable.Fits] at h
  have hroom : this.entries.length <
      if decide (this.entries.length + 1 ≥ this.maxentries) = true then
        (if this.maxentries ≠ 0 then this.maxentries * 2 else 2) else this.maxentries := by
    split
    · split
      · omega
      · omega
    · next hfull =>
      have hlt := mt decide_eq_true hfull
      omega
  refine ⟨_, by rw [MonofamilyPrefixTable.add, Bool.not_true, Bool.and_false,
    if_neg Bool.false_ne_true, if_pos hroom], ?_, rfl⟩
  rw [MonofamilyPrefixTable.Fits, List.length_append, List.length_singleton]
  exact hroom

/-- **An entry is added.** It comes last in the table of its family. -/
theorem PrefixTables.add_eq {this : PrefixTables} (hv6 : this.v6Table.Fits)
    (hv4 : this.v4Table.Fits) (newEntry : PrefixQuota) :
    ∃ that, this.add newEntry true = some (that, 0) ∧ that.v6Table.Fits ∧ that.v4Table.Fits ∧
      that.toTable = prefixTableAdd this.toTable newEntry := by
  obtain ⟨v6Table, hadd6, hfits6, hentries6⟩ := MonofamilyPrefixTable.add_eq hv6 newEntry
  obtain ⟨v4Table, hadd4, hfits4, hentries4⟩ := MonofamilyPrefixTable.add_eq hv4 newEntry
  have htable4 : ({ this with v4Table := v4Table } : PrefixTables).toTable =
      ⟨this.v6Table.entries, this.v4Table.entries ++ [newEntry]⟩ := by
    rw [← hentries4]
    rfl
  rw [PrefixTables.add, prefixTableAdd]
  cases newEntry.pfx.addr with
  | unspec =>
    exact ⟨{ this with v4Table := v4Table }, by rw [hadd4]; rfl, hv6, hfits4, htable4⟩
  | inet addr =>
    exact ⟨{ this with v4Table := v4Table }, by rw [hadd4]; rfl, hv6, hfits4, htable4⟩
  | inet6 addr =>
    refine ⟨{ this with v6Table := v6Table }, by rw [hadd6]; rfl, hfits6, hv4, ?_⟩
    rw [PrefixTables.toTable, hentries6]
    rfl

/-- Some entries are added in turn, with memory enough. -/
def PrefixTables.addAll (this : PrefixTables) (entries : List PrefixQuota) : Option PrefixTables :=
  entries.foldlM (fun this e => (this.add e true).map Prod.fst) this

theorem PrefixTables.addAll_eq {this : PrefixTables} (hv6 : this.v6Table.Fits)
    (hv4 : this.v4Table.Fits) (entries : List PrefixQuota) :
    ∃ that, this.addAll entries = some that ∧
      that.toTable = entries.foldl prefixTableAdd this.toTable := by
  induction entries generalizing this with
  | nil => exact ⟨this, rfl, rfl⟩
  | cons e entries ih =>
    obtain ⟨this', hadd, hv6', hv4', htable⟩ := this.add_eq hv6 hv4 e
    obtain ⟨that, hrest, heq⟩ := ih hv6' hv4'
    refine ⟨that, ?_, ?_⟩
    · rw [PrefixTables.addAll, List.foldlM_cons, hadd]
      exact hrest
    · rw [heq, htable, List.foldl_cons]

/-! ### The search -/

/-- `_cmp_prefix`. -/
def cmpPrefix (p q : PrefixQuota) : ℤ :=
  if p.pfx.len < q.pfx.len then -1 else if q.pfx.len < p.pfx.len then 1 else 0

/-- What `qsort` may make of a table: the entries are in some order that the comparison agrees
with. -/
structure Sorted (entries sorted : List PrefixQuota) : Prop where
  perm : sorted.Perm entries
  pairwise : sorted.Pairwise fun p q => cmpPrefix p q ≤ 0

theorem cmpPrefix_nonpos_iff (p q : PrefixQuota) : cmpPrefix p q ≤ 0 ↔ p.pfx.len ≤ q.pfx.len := by
  rw [cmpPrefix]
  split
  · omega
  · split
    · omega
    · omega

/-- The quota is that of a longest prefix that the address is in, or there is no limit. -/
def LongestPrefix (entries : List PrefixQuota) (addr : Sock) (quota : ℤ) : Prop :=
  (∃ e ∈ entries, Matches e.pfx addr ∧ e.quota = quota ∧
      ∀ f ∈ entries, Matches f.pfx addr → f.pfx.len ≤ e.pfx.len) ∨
    (∀ e ∈ entries, ¬ Matches e.pfx addr) ∧ quota = -1

/-- **The search.** A sorted table is searched from its end, and the first entry found is one with a
longest prefix. -/
theorem monofamilyGetQuota_longestPrefix {entries sorted : List PrefixQuota}
    (hsorted : Sorted entries sorted)
    (hlen : ∀ e ∈ entries, e.pfx.len ≤ 8 * e.pfx.addr.bytes.length) (addr : Sock) :
    LongestPrefix entries addr (monofamilyGetQuota sorted addr) := by
  have hmatches {e : PrefixQuota} (he : e ∈ entries) :
      ipInPrefix e.pfx addr = true ↔ Matches e.pfx addr := ipInPrefix_iff (hlen e he) addr
  rw [monofamilyGetQuota]
  cases hfind : sorted.reverse.find? fun e => ipInPrefix e.pfx addr with
  | none =>
    refine Or.inr ⟨fun e he hmatch => ?_, rfl⟩
    have hmem : e ∈ sorted.reverse := List.mem_reverse.mpr (hsorted.perm.mem_iff.mpr he)
    exact List.find?_eq_none.mp hfind e hmem ((hmatches he).mpr hmatch)
  | some e =>
    obtain ⟨hin, before, after, hsplit, hbefore⟩ := List.find?_eq_some_iff_append.mp hfind
    have he : e ∈ entries := by
      refine hsorted.perm.mem_iff.mp (List.mem_reverse.mp ?_)
      rw [hsplit]
      exact List.mem_append_right before List.mem_cons_self
    refine Or.inl ⟨e, he, (hmatches he).mp hin, rfl, fun f hf hmatch => ?_⟩
    have hmem : f ∈ before ++ e :: after := by
      rw [← hsplit, List.mem_reverse]
      exact hsorted.perm.mem_iff.mpr hf
    have hpairwise := List.pairwise_reverse.mpr hsorted.pairwise
    rw [hsplit] at hpairwise
    rcases List.mem_append.mp hmem with hmem | hmem
    · have hnot := hbefore f hmem
      rw [(hmatches hf).mpr hmatch] at hnot
      contradiction
    · rcases List.mem_cons.mp hmem with rfl | hmem
      · exact le_rfl
      · have hafter := (List.pairwise_append.mp hpairwise).2.1
        exact (cmpPrefix_nonpos_iff f e).mp (List.rel_of_pairwise_cons hafter hmem)

/-! ### Tables -/

/-- The entries that `prefix_quota_parse` makes of pairs of a prefix and a quota. -/
def acceptedEntries (pairs : List (CString × CString)) : List PrefixQuota :=
  pairs.filterMap fun p => prefixQuotaParse p.1 p.2

/-- The length read after the slash. -/
def LengthRead (rest : CString) (pmax len : ℕ) : Prop :=
  rest = [] ∧ len = pmax ∨
    rest ≠ [] ∧ ∃ v, sscanfD rest.tail = some v ∧ 0 ≤ v.toInt ∧ v.toInt ≤ pmax ∧
      len = v.toInt.toNat

/-- **A prefix that is read.** -/
theorem ipPrefixParse_eq_some_iff {ipstr : CString} {sock : Sock} {len : ℕ} :
    ipPrefixParse ipstr = some (sock, len) ↔
      (ipstr.takeWhile (· ≠ 0x2f)).length ≤ 40 ∧
        ipConvert (ipstr.takeWhile (· ≠ 0x2f)) = some sock ∧
        LengthRead (ipstr.dropWhile (· ≠ 0x2f)) (8 * sock.bytes.length) len := by
  rw [ipPrefixParse]
  dsimp only
  generalize ipstr.takeWhile (· ≠ 0x2f) = ip
  generalize ipstr.dropWhile (· ≠ 0x2f) = rest
  rw [LengthRead]
  by_cases hlength : ip.length > 40
  · rw [if_pos hlength]
    refine iff_of_false ?_ (fun h => absurd h.1 (Nat.not_le.mpr hlength))
    intro h
    contradiction
  · rw [if_neg hlength, and_iff_right (Nat.not_lt.mp hlength)]
    by_cases hrest : rest = []
    · have hnot : ¬ (rest ≠ [] ∧ ∃ v, sscanfD rest.tail = some v ∧ 0 ≤ v.toInt ∧
          v.toInt ≤ (8 * sock.bytes.length : ℕ) ∧ len = v.toInt.toNat) := fun h => h.1 hrest
      rw [if_pos hrest, or_iff_left hnot, and_iff_right hrest, Option.bind_eq_bind,
        Option.bind_some, Option.bind_eq_bind, Option.bind_eq_some_iff]
      constructor
      · rintro ⟨sock', hsock, h⟩
        obtain ⟨rfl, rfl⟩ := Prod.mk.inj (Option.some.inj h)
        exact ⟨hsock, rfl⟩
      · rintro ⟨hsock, rfl⟩
        exact ⟨sock, hsock, rfl⟩
    · have hnot : ¬ (rest = [] ∧ len = 8 * sock.bytes.length) := fun h => hrest h.1
      rw [if_neg hrest, or_iff_right hnot, and_iff_right hrest, Option.bind_eq_bind,
        Option.bind_eq_some_iff]
      constructor
      · rintro ⟨prefixlen, hread, h⟩
        obtain ⟨v, hv, rfl⟩ := Option.map_eq_some_iff.mp hread
        obtain ⟨sock', hsock, h⟩ := Option.bind_eq_some_iff.mp h
        dsimp only at h
        split at h
        · next hrange =>
          obtain ⟨rfl, rfl⟩ := Prod.mk.inj (Option.some.inj h)
          exact ⟨hsock, v, hv, hrange.1, hrange.2, rfl⟩
        · contradiction
      · rintro ⟨hsock, v, hv, hlo, hhi, rfl⟩
        refine ⟨some v.toInt, by rw [hv]; rfl, ?_⟩
        rw [Option.bind_eq_bind, hsock, Option.bind_some]
        exact if_pos ⟨hlo, hhi⟩

/-- **What is accepted passed the checks.** -/
theorem prefixQuotaParse_eq_some_iff {ipPrefix quotaStr : CString} {e : PrefixQuota} :
    prefixQuotaParse ipPrefix quotaStr = some e ↔
      (∃ v, sscanfLu quotaStr = some v ∧ (BitVec.ofNat 32 v).toInt = e.quota) ∧ -1 ≤ e.quota ∧
        ipPrefixParse ipPrefix = some (e.pfx.addr, e.pfx.len) ∧
        prefixCheckIp e.pfx.addr e.pfx.len = true := by
  rw [prefixQuotaParse, Option.bind_eq_bind, Option.bind_eq_some_iff]
  constructor
  · rintro ⟨quota, hquota, h⟩
    split at h
    · contradiction
    · next hnot =>
      obtain ⟨⟨addr, len⟩, hparse, h⟩ := Option.bind_eq_some_iff.mp h
      dsimp only at h
      split at h
      · next hcheck =>
        obtain rfl := Option.some.inj h
        exact ⟨Option.map_eq_some_iff.mp hquota, Int.not_lt.mp hnot, hparse, hcheck⟩
      · contradiction
  · rintro ⟨⟨v, hv, hquota⟩, hmin, hparse, hcheck⟩
    refine ⟨e.quota, by rw [hv, Option.map_some, hquota], ?_⟩
    rw [if_neg (Int.not_lt.mpr hmin), hparse, Option.bind_eq_bind, Option.bind_some]
    exact if_pos hcheck

/-- What `prefix_quota_parse` accepts has an address and a length that is in range, and its bits
after the prefix are zeros. -/
theorem of_prefixQuotaParse {ipPrefix quotaStr : CString} {e : PrefixQuota}
    (h : prefixQuotaParse ipPrefix quotaStr = some e) :
    e.pfx.len ≤ 8 * e.pfx.addr.bytes.length ∧ prefixCheckIp e.pfx.addr e.pfx.len = true := by
  obtain ⟨-, -, hparse, hcheck⟩ := prefixQuotaParse_eq_some_iff.mp h
  refine ⟨?_, hcheck⟩
  rcases (ipPrefixParse_eq_some_iff.mp hparse).2.2 with ⟨-, hlen⟩ | ⟨-, v, -, -, hmax, hlen⟩
  · exact hlen.le
  · exact hlen ▸ Int.toNat_le.mpr hmax

/-- The entries of the one table, and those of the other. -/
def isInet6 (e : PrefixQuota) : Bool := e.pfx.addr.sameFamily (.inet6 (Vector.replicate 16 0))

theorem foldl_prefixTableAdd (entries : List PrefixQuota) (this : PrefixTable) :
    entries.foldl prefixTableAdd this =
      ⟨this.v6Table ++ entries.filter isInet6,
        this.v4Table ++ entries.filter fun e => !isInet6 e⟩ := by
  induction entries generalizing this with
  | nil => rw [List.foldl_nil, List.filter_nil, List.filter_nil, List.append_nil, List.append_nil]
  | cons e entries ih =>
    rw [List.foldl_cons, ih, prefixTableAdd, List.filter_cons, List.filter_cons]
    have hfamily : isInet6 e = e.pfx.addr.sameFamily (.inet6 (Vector.replicate 16 0)) := rfl
    rw [hfamily]
    cases e.pfx.addr with
    | unspec => simp [Sock.sameFamily]
    | inet addr => simp [Sock.sameFamily]
    | inet6 addr => simp [Sock.sameFamily]

theorem sameFamily_eq {a b : Sock} (h : a.sameFamily b = true) (c : Sock) :
    a.sameFamily c = b.sameFamily c := by
  cases a <;> cases b <;> cases c <;> first | rfl | contradiction

/-- The table of a family has all the entries of that family. -/
theorem longestPrefix_of_family {entries family : List PrefixQuota} {addr : Sock} {quota : ℤ}
    (hfamily : ∀ e ∈ family, e ∈ entries)
    (hall : ∀ e ∈ entries, e.pfx.addr.sameFamily addr = true → e ∈ family)
    (h : LongestPrefix family addr quota) : LongestPrefix entries addr quota := by
  rcases h with ⟨e, he, hmatch, hquota, hlongest⟩ | ⟨hnone, hquota⟩
  · exact Or.inl ⟨e, hfamily e he, hmatch, hquota,
      fun f hf hfmatch => hlongest f (hall f hf hfmatch.1) hfmatch⟩
  · exact Or.inr ⟨fun e he hmatch => hnone e (hall e he hmatch.1) hmatch, hquota⟩

theorem of_mem_acceptedEntries {pairs : List (CString × CString)} {e : PrefixQuota}
    (h : e ∈ acceptedEntries pairs) :
    e.pfx.len ≤ 8 * e.pfx.addr.bytes.length ∧ prefixCheckIp e.pfx.addr e.pfx.len = true := by
  obtain ⟨p, -, hp⟩ := List.mem_filterMap.mp h
  exact of_prefixQuotaParse hp

/-- The entries of each family, sorted. -/
theorem getQuota_of_sorted {pairs : List (CString × CString)} {sorted : PrefixTable}
    (hsorted6 : Sorted ((acceptedEntries pairs).filter isInet6) sorted.v6Table)
    (hsorted4 : Sorted ((acceptedEntries pairs).filter fun e => !isInet6 e) sorted.v4Table)
    {addr : Sock} (haddr : addr ≠ .unspec) :
    LongestPrefix (acceptedEntries pairs) addr (sorted.getQuota addr) := by
  have hlen {p : PrefixQuota → Bool} : ∀ e ∈ (acceptedEntries pairs).filter p,
      e.pfx.len ≤ 8 * e.pfx.addr.bytes.length :=
    fun e he => (of_mem_acceptedEntries (List.mem_filter.mp he).1).1
  cases addr with
  | unspec => exact absurd rfl haddr
  | inet addr =>
    refine longestPrefix_of_family (fun e he => (List.mem_filter.mp he).1)
      (fun e he hfamily => List.mem_filter.mpr ⟨he, ?_⟩)
      (monofamilyGetQuota_longestPrefix hsorted4 hlen _)
    rw [isInet6, sameFamily_eq hfamily]
    rfl
  | inet6 addr =>
    refine longestPrefix_of_family (fun e he => (List.mem_filter.mp he).1)
      (fun e he hfamily => List.mem_filter.mpr ⟨he, ?_⟩)
      (monofamilyGetQuota_longestPrefix hsorted6 hlen _)
    exact sameFamily_eq hfamily _

/-- **The quota of an address.** It is that of a longest prefix, in whatever order the entries were
added and the sort leaves those of a length, and the prefixes have zeros after their length. -/
theorem getQuota_longestPrefix (pairs : List (CString × CString)) :
    (∃ tables, PrefixTables.new.addAll (acceptedEntries pairs) = some tables ∧
      ∀ sorted : PrefixTable, Sorted tables.v6Table.entries sorted.v6Table →
        Sorted tables.v4Table.entries sorted.v4Table → ∀ addr, addr ≠ .unspec →
          LongestPrefix (acceptedEntries pairs) addr (sorted.getQuota addr)) ∧
      ∀ e ∈ acceptedEntries pairs, ∀ b ∈ (bitsOf e.pfx.addr.bytes).drop e.pfx.len, b = false := by
  constructor
  · have hnew6 : PrefixTables.new.v6Table.Fits := Nat.zero_le _
    have hnew4 : PrefixTables.new.v4Table.Fits := Nat.zero_le _
    obtain ⟨tables, hadd, htable⟩ := PrefixTables.addAll_eq hnew6 hnew4 (acceptedEntries pairs)
    rw [foldl_prefixTableAdd] at htable
    obtain ⟨hv6, hv4⟩ := PrefixTable.mk.inj htable
    refine ⟨tables, hadd, fun sorted hsorted6 hsorted4 addr haddr => ?_⟩
    rw [hv6] at hsorted6
    rw [hv4] at hsorted4
    exact getQuota_of_sorted hsorted6 hsorted4 haddr
  · intro e he
    obtain ⟨hlen, hcheck⟩ := of_mem_acceptedEntries he
    exact (prefixCheckIp_iff hlen).mp hcheck

theorem sorted_mergeSort (entries : List PrefixQuota) :
    Sorted entries (entries.mergeSort fun p q => p.pfx.len ≤ q.pfx.len) where
  perm := List.mergeSort_perm _ _
  pairwise := by
    have htrans (a b c : PrefixQuota) (hab : decide (a.pfx.len ≤ b.pfx.len) = true)
        (hbc : decide (b.pfx.len ≤ c.pfx.len) = true) : decide (a.pfx.len ≤ c.pfx.len) = true :=
      decide_eq_true ((of_decide_eq_true hab).trans (of_decide_eq_true hbc))
    have htotal (a b : PrefixQuota) :
        (decide (a.pfx.len ≤ b.pfx.len) || decide (b.pfx.len ≤ a.pfx.len)) = true := by
      rw [Bool.or_eq_true, decide_eq_true_iff, decide_eq_true_iff]
      exact le_total _ _
    refine (List.pairwise_mergeSort htrans htotal entries).imp fun h => ?_
    exact (cmpPrefix_nonpos_iff _ _).mpr (of_decide_eq_true h)

/-- The blocklist is searched by longest prefix. -/
theorem prefixTableRead_longestPrefix {content : List Byte} {table : PrefixTable}
    (h : prefixTableRead content = some table) :
    ∃ pls, fileParse 2 (cstr "\t ") true content = some pls ∧ ∀ addr, addr ≠ .unspec →
      LongestPrefix (acceptedEntries (pls.map fun pl => (field pl 0, field pl 1))) addr
        (table.getQuota addr) := by
  obtain ⟨pls, hpls, rfl⟩ := Option.map_eq_some_iff.mp h
  refine ⟨pls, hpls, fun addr haddr => ?_⟩
  have hentries : (pls.filterMap fun pl => prefixQuotaParse (field pl 0) (field pl 1)) =
      acceptedEntries (pls.map fun pl => (field pl 0, field pl 1)) := by
    rw [acceptedEntries, List.filterMap_map]
    rfl
  rw [hentries, foldl_prefixTableAdd, prefixTableSort]
  exact getQuota_of_sorted (sorted_mergeSort _) (sorted_mergeSort _) haddr

end ChilopodCaster
