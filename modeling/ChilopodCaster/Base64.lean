import ChilopodCaster.Http
import ChilopodCaster.Lib.Fold
import ChilopodCaster.Lib.Sextets

/-!
# Base 64 and the credentials of a request

`b64encode` writes three bytes at a time as four characters of the alphabet, and pads the last
group. `b64decode` reads six bits at a time behind a mark, and writes three bytes when the mark has
moved by 24 bits; the place of the mark at the end tells how many bytes are left. The length of the
result is computed before.

The credentials of a request are a user and a password, separated by a colon, in base 64.

## Main definitions

* `b64encode` — the encoder, as `b64encode` of `util.c`
* `b64decodeBuffer` — `b64decode`, with the buffer that it allocates
* `httpHeadersAddAuth` — the value that `http_headers_add_auth` gives to the header
* `httpDecodeAuthInto` — `http_decode_auth`, with what it leaves in its parameters

## Main results

* `b64_bijection` — texts in base 64 are decoded as they were encoded, and back
* `httpDecodeAuthInto_addAuth` — credentials are read back
-/

namespace ChilopodCaster

/-! ### Encoding -/

/-- The alphabet. -/
def base64 : CString := cstr "ABCDEFGHIJKLMNOPQRSTUVWXYZabcdefghijklmnopqrstuvwxyz0123456789+/"

/-- `base64[i]`. -/
def b64char (i : ℕ) : Byte := base64.getD i 0

/-- `b64encode`, less the NUL at the end. -/
def b64encode : List Byte → CString
  | a :: b :: c :: str =>
    b64char (a.toNat >>> 2) ::
    b64char (((a.toNat <<< 4) ||| (b.toNat >>> 4)) &&& 63) ::
    b64char (((b.toNat <<< 2) ||| (c.toNat >>> 6)) &&& 63) ::
    b64char (c.toNat &&& 63) :: b64encode str
  | [a, b] =>
    [b64char (a.toNat >>> 2), b64char (((a.toNat <<< 4) ||| (b.toNat >>> 4)) &&& 63),
      b64char ((b.toNat <<< 2) &&& 63), 61]
  | [a] => [b64char (a.toNat >>> 2), b64char ((a.toNat <<< 4) &&& 63), 61, 61]
  | [] => []

/-- `b64len`, the bytes that `b64encode` allocates. -/
def b64len (len : ℕ) (addNul : Bool) : ℕ :=
  len / 3 * 4 + (if len % 3 ≠ 0 then 4 else 0) + if addNul then 1 else 0

/-- `result_len`, the bytes that `b64decode` allocates. -/
def b64resultLen (str : CString) (addNul : Bool) : ℕ :=
  str.length / 4 * 3 + (if addNul then 1 else 0) - (str.length - (b64unpad str).length)

/-- `b64decode`: the bytes that it allocates, and those that it writes. -/
def b64decodeBuffer (str : CString) (addNul : Bool) : Option (ℕ × List Byte) :=
  (b64decode str).map fun r => (b64resultLen str addNul, if addNul then r ++ [0] else r)

/-- The bits of the last character that are in no byte: two of them before one `=`, four before
two. -/
def b64unused (str : CString) : ℕ :=
  let last := ((b64unpad str).getLast?.bind b64value).getD 0
  if str.length - (b64unpad str).length = 1 then last % 4
  else if str.length - (b64unpad str).length = 2 then last % 16
  else 0

/-! ### The alphabet -/

theorem b64value_b64char {i : ℕ} (h : i < 64) : b64value (b64char i) = some i := by
  have hall : ∀ i < 64, b64value (b64char i) = some i := by decide +kernel
  exact hall i h

theorem length_base64 : base64.length = 64 := by decide

theorem b64char_eq {i : ℕ} (h : i < base64.length) : b64char i = base64[i] := by
  rw [b64char, List.getD_eq_getElem?_getD, List.getElem?_eq_getElem h, Option.getD_some]

theorem b64char_mem {i : ℕ} (h : i < 64) : b64char i ∈ base64 := by
  rw [b64char_eq (by rwa [length_base64])]
  exact List.getElem_mem _

theorem b64char_of_b64value {c : Byte} {b6 : ℕ} (h : b64value c = some b6) :
    b64char b6 = c ∧ b6 < 64 := by
  have hall : ∀ c : Byte, ∀ b6 ∈ b64value c, b64char b6 = c ∧ b6 < 64 := by decide +kernel
  exact hall c b6 h

theorem b64value_eq_none_iff (c : Byte) : b64value c = none ↔ c ∉ base64 := by
  constructor
  · intro hnone hmem
    obtain ⟨i, hi, rfl⟩ := List.mem_iff_getElem.mp hmem
    have hvalue := b64value_b64char (length_base64 ▸ hi)
    rw [b64char_eq hi, hnone] at hvalue
    exact Option.some_ne_none i hvalue.symm
  · intro hnot
    cases hvalue : b64value c with
    | none => rfl
    | some b6 =>
      obtain ⟨rfl, hlt⟩ := b64char_of_b64value hvalue
      exact absurd (b64char_mem hlt) hnot

/-! ### Encoding by sextets -/

/-- The padding after the last group. -/
def padding (len : ℕ) : CString := List.replicate ((3 - len % 3) % 3) 61

theorem sextet_high (a : ℕ) : a >>> 2 = a / 4 := Nat.shiftRight_eq_div_pow a 2

theorem sextet_low (a : ℕ) : a &&& 63 = a % 64 := Nat.and_two_pow_sub_one_eq_mod a 6

theorem sextet_shift (a k : ℕ) : (a <<< k) &&& 63 = a * 2 ^ k % 64 := by
  rw [sextet_low, Nat.shiftLeft_eq]

/-- The low bits of a byte and the high bits of the next one. -/
theorem sextet_join {a b k l : ℕ} (h : b >>> l < 2 ^ k) :
    ((a <<< k) ||| (b >>> l)) &&& 63 = (a * 2 ^ k + b / 2 ^ l) % 64 := by
  rw [sextet_low, ← Nat.shiftLeft_add_eq_or_of_lt h, Nat.shiftLeft_eq, Nat.shiftRight_eq_div_pow]

theorem sextet_second (a : ℕ) {b : ℕ} (hb : b < 256) :
    ((a <<< 4) ||| (b >>> 4)) &&& 63 = a % 4 * 16 + b / 16 := by
  rw [sextet_join (by rw [Nat.shiftRight_eq_div_pow]; omega)]
  omega

theorem sextet_third (b : ℕ) {c : ℕ} (hc : c < 256) :
    ((b <<< 2) ||| (c >>> 6)) &&& 63 = b % 16 * 4 + c / 64 := by
  rw [sextet_join (by rw [Nat.shiftRight_eq_div_pow]; omega)]
  omega

/-- **The encoder writes the sextets**, and the padding. -/
theorem b64encode_eq (s : List Byte) :
    b64encode s = (Sextets.ofBytes (s.map BitVec.toNat)).map b64char ++ padding s.length := by
  induction s using b64encode.induct with
  | case1 a b c str ih =>
    have hpad : padding (a :: b :: c :: str).length = padding str.length := by
      have hmod : (a :: b :: c :: str).length % 3 = str.length % 3 := by
        simp only [List.length_cons]
        omega
      rw [padding, padding, hmod]
    rw [b64encode, ih, sextet_high, sextet_second a.toNat b.isLt, sextet_third b.toNat c.isLt,
      sextet_low, hpad]
    simp only [List.map_cons, Sextets.ofBytes, List.cons_append]
  | case2 a b =>
    have hlast : (b.toNat <<< 2) &&& 63 = b.toNat % 16 * 4 := by
      rw [sextet_shift]
      omega
    rw [b64encode, sextet_high, sextet_second a.toNat b.isLt, hlast]
    simp only [List.map_cons, List.map_nil, Sextets.ofBytes]
    rfl
  | case3 a =>
    have hlast : (a.toNat <<< 4) &&& 63 = a.toNat % 4 * 16 := by
      rw [sextet_shift]
      omega
    rw [b64encode, sextet_high, hlast]
    simp only [List.map_cons, List.map_nil, Sextets.ofBytes]
    rfl
  | case4 => rfl

/-! ### Decoding by sextets -/

/-- One round of the loop, once the character has been read. -/
def b64push (s : ℕ × List Byte) (b6 : ℕ) : ℕ × List Byte :=
  let i := s.1 * 64 + b6
  if i / 0x1000000 % 2 = 1 then
    (1, s.2 ++ [BitVec.ofNat 8 (i / 65536), BitVec.ofNat 8 (i / 256), BitVec.ofNat 8 i])
  else (i, s.2)

/-- What is done after the loop. -/
def b64rest (s : ℕ × List Byte) : List Byte :=
  if s.1 / 0x40000 % 2 = 1 then s.2 ++ [BitVec.ofNat 8 (s.1 / 1024), BitVec.ofNat 8 (s.1 / 4)]
  else if s.1 / 0x1000 % 2 = 1 then s.2 ++ [BitVec.ofNat 8 (s.1 / 16)]
  else s.2

theorem b64push_small {i b6 : ℕ} (r : List Byte) (h : i * 64 + b6 < 0x1000000) :
    b64push (i, r) b6 = (i * 64 + b6, r) := by
  rw [b64push, Nat.div_eq_of_lt h]
  rfl

theorem ofNat_eq_of_mod {m n : ℕ} (h : m % 256 = n % 256) :
    BitVec.ofNat 8 m = BitVec.ofNat 8 n := by
  refine BitVec.eq_of_toNat_eq ?_
  rw [BitVec.toNat_ofNat, BitVec.toNat_ofNat]
  exact h

/-- **The mark tells where a group ends**: what is written is the bytes of the sextets. -/
theorem b64rest_foldl {v : List ℕ} (h : ∀ b6 ∈ v, b6 < 64) (r : List Byte) :
    b64rest (v.foldl b64push (1, r)) = r ++ (Sextets.toBytes v).map (BitVec.ofNat 8) := by
  induction v using Sextets.toBytes.induct generalizing r with
  | case1 a b c d v ih =>
    simp only [List.forall_mem_cons] at h
    obtain ⟨ha, hb, hc, hd, hv⟩ := h
    have hgroup : b64push (((1 * 64 + a) * 64 + b) * 64 + c, r) d =
        (1, r ++ [BitVec.ofNat 8 (a * 4 + b / 16), BitVec.ofNat 8 (b % 16 * 16 + c / 4),
          BitVec.ofNat 8 (c % 4 * 64 + d)]) := by
      have hi : (((1 * 64 + a) * 64 + b) * 64 + c) * 64 + d =
          16777216 + a * 262144 + b * 4096 + c * 64 + d := by omega
      have h₁ : (16777216 + a * 262144 + b * 4096 + c * 64 + d) / 65536 % 256 =
          (a * 4 + b / 16) % 256 := by omega
      have h₂ : (16777216 + a * 262144 + b * 4096 + c * 64 + d) / 256 % 256 =
          (b % 16 * 16 + c / 4) % 256 := by omega
      have h₃ : (16777216 + a * 262144 + b * 4096 + c * 64 + d) % 256 =
          (c % 4 * 64 + d) % 256 := by omega
      rw [b64push, hi, ofNat_eq_of_mod h₁, ofNat_eq_of_mod h₂, ofNat_eq_of_mod h₃]
      exact if_pos (by omega)
    rw [List.foldl_cons, List.foldl_cons, List.foldl_cons, List.foldl_cons,
      b64push_small r (by omega), b64push_small r (by omega), b64push_small r (by omega), hgroup,
      ih hv, Sextets.toBytes]
    simp only [List.append_assoc, List.map_cons, List.cons_append, List.nil_append]
  | case2 a b c =>
    simp only [List.forall_mem_cons] at h
    have h₁ : (((1 * 64 + a) * 64 + b) * 64 + c) / 1024 % 256 = (a * 4 + b / 16) % 256 := by omega
    have h₂ : (((1 * 64 + a) * 64 + b) * 64 + c) / 4 % 256 = (b % 16 * 16 + c / 4) % 256 := by
      omega
    rw [List.foldl_cons, List.foldl_cons, List.foldl_cons, List.foldl_nil,
      b64push_small r (by omega), b64push_small r (by omega), b64push_small r (by omega), b64rest,
      ofNat_eq_of_mod h₁, ofNat_eq_of_mod h₂, Sextets.toBytes]
    exact if_pos (by omega)
  | case3 a b =>
    simp only [List.forall_mem_cons] at h
    have h₁ : ((1 * 64 + a) * 64 + b) / 16 % 256 = (a * 4 + b / 16) % 256 := by omega
    rw [List.foldl_cons, List.foldl_cons, List.foldl_nil, b64push_small r (by omega),
      b64push_small r (by omega), b64rest, ofNat_eq_of_mod h₁, Sextets.toBytes, if_neg (by omega)]
    exact if_pos (by omega)
  | case4 a =>
    simp only [List.forall_mem_cons] at h
    rw [List.foldl_cons, List.foldl_nil, b64push_small r (by omega), b64rest, Sextets.toBytes,
      if_neg (by omega), if_neg (by omega), List.map_nil, List.append_nil]
  | case5 =>
    rw [List.foldl_nil, b64rest, Sextets.toBytes, if_neg (by omega), if_neg (by omega),
      List.map_nil, List.append_nil]

/-- The characters that are read are those of the sextets. -/
theorem eq_map_of_mapM_b64value {l : CString} {v : List ℕ} (h : l.mapM b64value = some v) :
    l = v.map b64char ∧ ∀ b6 ∈ v, b6 < 64 := by
  induction l generalizing v with
  | nil =>
    obtain rfl := Option.some.inj h
    exact ⟨rfl, fun _ hmem => absurd hmem List.not_mem_nil⟩
  | cons c l ih =>
    rw [List.mapM_cons] at h
    obtain ⟨b6, hb6, h⟩ := Option.bind_eq_some_iff.mp h
    obtain ⟨v, hv, h⟩ := Option.bind_eq_some_iff.mp h
    obtain rfl := Option.some.inj h
    obtain ⟨hchar, hlt⟩ := b64char_of_b64value hb6
    obtain ⟨rfl, hall⟩ := ih hv
    exact ⟨by rw [List.map_cons, hchar], List.forall_mem_cons.mpr ⟨hlt, hall⟩⟩

theorem mapM_b64value_map {v : List ℕ} (h : ∀ b6 ∈ v, b6 < 64) :
    (v.map b64char).mapM b64value = some v := by
  induction v with
  | nil => rfl
  | cons b6 v ih =>
    rw [List.forall_mem_cons] at h
    rw [List.map_cons, List.mapM_cons, b64value_b64char h.1, ih h.2]
    rfl

/-- **The decoder writes the bytes of the sextets.** -/
theorem b64decode_eq (str : CString) :
    b64decode str =
      if str.length % 4 ≠ 0 then none
      else ((b64unpad str).mapM b64value).map fun v =>
        (Sextets.toBytes v).map (BitVec.ofNat 8) := by
  have hround (s : ℕ × List Byte) (c : Byte) : b64round s c = (b64value c).map (b64push s) := rfl
  rw [b64decode, Fold.foldlM_eq_map_mapM hround, Option.map_map]
  split
  · rfl
  · cases hv : (b64unpad str).mapM b64value with
    | none => rfl
    | some v =>
      exact congrArg some (b64rest_foldl (eq_map_of_mapM_b64value hv).2 [])

/-! ### Padding -/

theorem b64unpad_append {m : CString} (h : 61 ∉ m) {k : ℕ} (hk : k ≤ 2) :
    b64unpad (m ++ List.replicate k 61) = m := by
  have hlast : m.getLast? ≠ some 61 := fun hlast => h (List.mem_of_getLast? hlast)
  obtain rfl | rfl | rfl : k = 0 ∨ k = 1 ∨ k = 2 := by omega
  · rw [List.replicate_zero, List.append_nil, b64unpad, if_neg hlast]
  · rw [List.replicate_one, b64unpad, List.getLast?_concat, if_pos rfl, List.dropLast_concat,
      if_neg hlast]
  · have htwo : m ++ List.replicate 2 61 = m ++ [61] ++ [(61 : Byte)] := by
      rw [List.append_assoc]
      rfl
    rw [htwo, b64unpad, List.getLast?_concat, if_pos rfl, List.dropLast_concat,
      List.getLast?_concat, if_pos rfl, List.dropLast_concat]

/-- A text is what is left of it and its padding. -/
theorem exists_b64unpad (str : CString) :
    ∃ k ≤ 2, str = b64unpad str ++ List.replicate k 61 := by
  have hdrop {s : CString} (h : s.getLast? = some 61) : s = s.dropLast ++ [61] :=
    (List.dropLast_append_getLast? 61 h).symm
  rw [b64unpad]
  split
  · next hone =>
    split
    · next htwo =>
      refine ⟨2, le_rfl, ?_⟩
      conv_lhs => rw [hdrop hone, hdrop htwo]
      rw [List.append_assoc]
      rfl
    · exact ⟨1, Nat.le_succ 1, hdrop hone⟩
  · exact ⟨0, Nat.zero_le 2, (List.append_nil str).symm⟩

/-- The unused bits of a text are those of its sextets. -/
theorem unused_eq {str : CString} {v : List ℕ} (hlen : str.length % 4 = 0)
    (hv : b64unpad str = v.map b64char) (hlt : ∀ b6 ∈ v, b6 < 64) :
    Sextets.unused v = b64unused str := by
  obtain ⟨k, hk, hstr⟩ := exists_b64unpad str
  have hlength := congrArg List.length hstr
  have hdiff : str.length - (b64unpad str).length = k := by
    rw [List.length_append, List.length_replicate] at hlength
    omega
  have hlast : ((b64unpad str).getLast?.bind b64value).getD 0 = v.getLastD 0 := by
    rw [hv, List.getLast?_map, List.getLastD_eq_getLast?]
    cases hl : v.getLast? with
    | none => rfl
    | some b6 =>
      rw [Option.map_some, Option.bind_some, b64value_b64char (hlt b6 (List.mem_of_getLast? hl))]
  rw [List.length_append, List.length_replicate, hv, List.length_map] at hlength
  rw [Sextets.unused, b64unused, hlast, hdiff]
  obtain rfl | rfl | rfl : k = 0 ∨ k = 1 ∨ k = 2 := by omega
  · rw [if_neg (by omega), if_neg (by omega), if_neg (by omega), if_neg (by omega)]
  · rw [if_pos (by omega), if_pos rfl]
  · rw [if_neg (by omega), if_pos (by omega), if_neg (by omega), if_pos rfl]

/-! ### Encoding and decoding -/

theorem length_b64encode (s : List Byte) : (b64encode s).length + 1 = b64len s.length true := by
  rw [b64encode_eq, List.length_append, List.length_map, Sextets.length_ofBytes, List.length_map,
    padding, List.length_replicate, b64len, if_pos rfl]
  by_cases hmod : s.length % 3 = 0
  · rw [if_pos hmod, if_neg (not_not.mpr hmod)]
    omega
  · rw [if_neg hmod, if_pos hmod]
    omega

theorem toNat_lt (s : List Byte) : ∀ a ∈ s.map BitVec.toNat, a < 256 := by
  intro a ha
  obtain ⟨b, -, rfl⟩ := List.mem_map.mp ha
  exact b.isLt

/-- The padding of a text that is encoded is taken off. -/
theorem b64unpad_b64encode (s : List Byte) :
    b64unpad (b64encode s) = (Sextets.ofBytes (s.map BitVec.toNat)).map b64char := by
  have hmem : 61 ∉ (Sextets.ofBytes (s.map BitVec.toNat)).map b64char := by
    intro hmem
    obtain ⟨b6, hb6, heq⟩ := List.mem_map.mp hmem
    have hchar := b64char_mem (Sextets.ofBytes_lt (toNat_lt s) b6 hb6)
    rw [heq] at hchar
    exact absurd hchar (by decide)
  rw [b64encode_eq, padding, b64unpad_append hmem (by omega)]

/-- **What is encoded is decoded.** -/
theorem b64decode_b64encode (s : List Byte) : b64decode (b64encode s) = some s := by
  have hlen : (b64encode s).length % 4 = 0 := by
    have h := length_b64encode s
    rw [b64len, if_pos rfl] at h
    split at h <;> omega
  rw [b64decode_eq, if_neg (not_not.mpr hlen), b64unpad_b64encode,
    mapM_b64value_map (Sextets.ofBytes_lt (toNat_lt s)), Option.map_some,
    Sextets.toBytes_ofBytes (toNat_lt s), List.map_map]
  refine congrArg some ((List.map_congr_left fun b _ => ?_).trans (List.map_id s))
  exact BitVec.ofNat_toNat ..

/-- A text is decoded unless its length or a character is wrong. -/
theorem b64decode_eq_none_iff (str : CString) :
    b64decode str = none ↔ str.length % 4 ≠ 0 ∨ ∃ c ∈ b64unpad str, c ∉ base64 := by
  simp only [← b64value_eq_none_iff]
  rw [b64decode_eq, ← Fold.mapM_eq_none_iff]
  split
  · next h => simp [h]
  · next h => simp [h]

/-- What is known of a text that is decoded. -/
theorem exists_sextets {str : CString} {s : List Byte} (h : b64decode str = some s) :
    ∃ v : List ℕ, str.length % 4 = 0 ∧ b64unpad str = v.map b64char ∧ (∀ b6 ∈ v, b6 < 64) ∧
      s.map BitVec.toNat = Sextets.toBytes v := by
  rw [b64decode_eq] at h
  split at h
  · contradiction
  · next hlen =>
    obtain ⟨v, hv, rfl⟩ := Option.map_eq_some_iff.mp h
    obtain ⟨hmap, hlt⟩ := eq_map_of_mapM_b64value hv
    refine ⟨v, not_not.mp hlen, hmap, hlt, ?_⟩
    rw [List.map_map]
    refine (List.map_congr_left fun b hb => ?_).trans (List.map_id _)
    exact (BitVec.toNat_ofNat b 8).trans (Nat.mod_eq_of_lt (Sextets.toBytes_lt hlt b hb))

/-- **What is decoded is encoded**, if the bits that are in no byte are zeros. -/
theorem b64encode_of_b64decode {str : CString} {s : List Byte} (h : b64decode str = some s)
    (hunused : b64unused str = 0) : b64encode s = str := by
  obtain ⟨v, hlen, hmap, hlt, hbytes⟩ := exists_sextets h
  obtain ⟨k, hk, hstr⟩ := exists_b64unpad str
  have hlength : v.length + k = str.length := by
    conv_rhs => rw [hstr]
    rw [List.length_append, List.length_replicate, hmap, List.length_map]
  have hs : s.length = v.length * 3 / 4 := by
    rw [← List.length_map BitVec.toNat, hbytes, Sextets.length_toBytes]
  have hpad : padding s.length = List.replicate k 61 := by
    have hk : (3 - v.length * 3 / 4 % 3) % 3 = k := by
      obtain rfl | rfl | rfl : k = 0 ∨ k = 1 ∨ k = 2 := by omega
      all_goals omega
    rw [padding, hs, hk]
  have hsextets : Sextets.ofBytes (s.map BitVec.toNat) = v := by
    rw [hbytes]
    exact Sextets.ofBytes_toBytes hlt (by omega) ((unused_eq hlen hmap hlt).trans hunused)
  rw [b64encode_eq, hsextets, ← hmap, hpad]
  exact hstr.symm

/-- **As many bytes are written as are allocated.** -/
theorem length_b64decode {str : CString} {s : List Byte} (h : b64decode str = some s) :
    s.length + 1 = b64resultLen str true := by
  obtain ⟨v, hlen, hmap, -, hbytes⟩ := exists_sextets h
  obtain ⟨k, hk, hstr⟩ := exists_b64unpad str
  have hlength : v.length + k = str.length := by
    conv_rhs => rw [hstr]
    rw [List.length_append, List.length_replicate, hmap, List.length_map]
  have hs : s.length = v.length * 3 / 4 := by
    rw [← List.length_map BitVec.toNat, hbytes, Sextets.length_toBytes]
  rw [b64resultLen, if_pos rfl, hmap, List.length_map, hs]
  omega

/-- The value that `http_headers_add_auth` gives to the header `Authorization`. -/
def httpHeadersAddAuth (user password : CString) : CString :=
  cstr "Basic " ++ b64encode (user ++ [58] ++ password)

/-- The parameters that `http_decode_auth` writes: `*scheme_basic`, `*user` and `*password`. -/
structure AuthParams where
  schemeBasic : ℤ
  user : Option CString
  password : Option CString
  deriving DecidableEq, Repr

/-- `http_decode_auth`: what it returns, and what it leaves in its parameters. -/
def httpDecodeAuthInto (value : CString) (params : AuthParams) : ℤ × AuthParams :=
  let scheme := value.takeWhile (!isspace ·)
  match value.dropWhile (!isspace ·) with
  | [] => (-1, params)
  | _ :: p =>
    let rSchemeBasic : Option ℤ :=
      if strcasecmp scheme (cstr "Basic") = false then some 1
      else if strcasecmp scheme (cstr "internal") = false then some 0
      else none
    match rSchemeBasic with
    | none => (-1, params)
    | some rSchemeBasic =>
      let p := p.dropWhile isspace
      if p = [] then (-1, params)
      else if rSchemeBasic = 0 then
        let auth := p.takeWhile (!isspace ·)
        (0, ⟨rSchemeBasic, some auth, some auth⟩)
      else
        match b64decode p with
        | none => (-1, params)
        | some auth =>
          let auth := toCString auth
          if 58 ∈ auth then
            (0, ⟨rSchemeBasic, some (auth.takeWhile (· ≠ 58)),
              some (auth.dropWhile (· ≠ 58)).tail⟩)
          else (-1, params)

/-- The parameters are written where there are credentials, and left alone elsewhere. -/
theorem httpDecodeAuthInto_eq (value : CString) (params : AuthParams) :
    httpDecodeAuthInto value params =
      (httpDecodeAuth value).elim (-1, params) fun auth =>
        (0, ⟨auth.schemeBasic.toNat, some auth.user, some auth.password⟩) := by
  simp only [httpDecodeAuthInto, httpDecodeAuth]
  cases value.dropWhile (!isspace ·) with
  | nil => rfl
  | cons c p =>
    by_cases hbasic : strcasecmp (value.takeWhile (!isspace ·)) (cstr "Basic") = false
    · simp only [if_pos hbasic]
      by_cases hp : p.dropWhile isspace = []
      · simp only [if_pos hp, Option.elim_none]
      · simp only [if_neg hp, if_neg one_ne_zero]
        cases b64decode (p.dropWhile isspace) with
        | none => rfl
        | some auth =>
          simp only [Option.bind_some]
          split <;> rfl
    · simp only [if_neg hbasic]
      by_cases hinternal : strcasecmp (value.takeWhile (!isspace ·)) (cstr "internal") = false
      · simp only [if_pos hinternal]
        by_cases hp : p.dropWhile isspace = []
        · simp only [if_pos hp, Option.elim_none]
        · simp only [if_neg hp, if_true]
          rfl
      · simp only [if_neg hinternal, Option.elim_none]

/-- A text in base 64 has no white space. -/
theorem isspace_b64encode (s : List Byte) : ∀ c ∈ b64encode s, isspace c = false := by
  have hspace : ∀ c : Byte, isspace c = true → b64value c = none := by decide +kernel
  have halphabet (c : Byte) (hc : c ∈ base64) : isspace c = false :=
    Bool.eq_false_iff.mpr fun h => (b64value_eq_none_iff c).mp (hspace c h) hc
  intro c hc
  rw [b64encode_eq] at hc
  rcases List.mem_append.mp hc with hc | hc
  · obtain ⟨b6, hb6, rfl⟩ := List.mem_map.mp hc
    exact halphabet _ (b64char_mem (Sextets.ofBytes_lt (toNat_lt s) b6 hb6))
  · rw [List.eq_of_mem_replicate hc]
    rfl

/-- Credentials are read back. -/
theorem httpDecodeAuth_addAuth {user password : CString} (hcolon : 58 ∉ user) (huser : 0 ∉ user)
    (hpassword : 0 ∉ password) :
    httpDecodeAuth (httpHeadersAddAuth user password) = some ⟨true, user, password⟩ := by
  have hnul : 0 ∉ user ++ [58] ++ password := by
    rw [List.mem_append, List.mem_append, List.mem_singleton]
    rintro ((hmem | hmem) | hmem)
    · exact huser hmem
    · exact absurd hmem (by decide)
    · exact hpassword hmem
  have hword : ∀ c ∈ cstr "Basic", (!isspace c) = true := by decide
  have htext : httpHeadersAddAuth user password =
      cstr "Basic" ++ 32 :: b64encode (user ++ [58] ++ password) := by
    have hvalue : cstr "Basic " = cstr "Basic" ++ [32] := by decide
    rw [httpHeadersAddAuth, hvalue, List.append_assoc]
    rfl
  have hscheme : (httpHeadersAddAuth user password).takeWhile (!isspace ·) = cstr "Basic" := by
    rw [htext, List.takeWhile_append_of_pos hword, List.takeWhile_cons_of_neg (by decide),
      List.append_nil]
  have hrest : (httpHeadersAddAuth user password).dropWhile (!isspace ·) =
      32 :: b64encode (user ++ [58] ++ password) := by
    rw [htext, List.dropWhile_append_of_pos hword, List.dropWhile_cons_of_neg (by decide)]
  have hdrop : (b64encode (user ++ [58] ++ password)).dropWhile isspace =
      b64encode (user ++ [58] ++ password) := by
    cases htext : b64encode (user ++ [58] ++ password) with
    | nil => rfl
    | cons c text =>
      have hc := isspace_b64encode (user ++ [58] ++ password) c (htext ▸ List.mem_cons_self)
      rw [List.dropWhile_cons, hc, if_neg Bool.false_ne_true]
  have hne : b64encode (user ++ [58] ++ password) ≠ [] := by
    intro htext
    have hdecode := b64decode_b64encode (user ++ [58] ++ password)
    have hnil : b64decode [] = some [] := rfl
    rw [htext, hnil] at hdecode
    simp at hdecode
  have hbefore : ∀ c ∈ user, decide (c ≠ 58) = true := fun c hc =>
    decide_eq_true fun heq => hcolon (heq ▸ hc)
  have hwhile : (user ++ [58] ++ password).takeWhile (· ≠ 58) = user := by
    rw [List.append_assoc, List.takeWhile_append_of_pos hbefore]
    exact List.append_nil user
  have htail : ((user ++ [58] ++ password).dropWhile (· ≠ 58)).tail = password := by
    rw [List.append_assoc, List.dropWhile_append_of_pos hbefore]
    rfl
  have hmem : 58 ∈ user ++ [58] ++ password := by simp
  have hbasic : strcasecmp (cstr "Basic") (cstr "Basic") = false := by decide
  rw [httpDecodeAuth, hscheme, hrest]
  dsimp only
  rw [hdrop, if_pos hbasic, if_neg hne, b64decode_b64encode, Option.bind_some,
    toCString_of_not_mem hnul, if_pos hmem, hwhile, htail]

end ChilopodCaster
