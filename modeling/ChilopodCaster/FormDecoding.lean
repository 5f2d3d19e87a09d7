import ChilopodCaster.Http

/-!
# Forms

The body of an administrative request is a list of arguments, each one a key and a value, and so is
the query of its address. `hash_from_urlencoding` cuts it up and decodes the parts where they are:
`urldecode` has one cursor to read and another to write, in the same string.

## Main definitions

* `EncodesForm` — the ways of encoding keys and values
* `urldecodeInPlace` — `urldecode`, with its two cursors

## Main results

* `exists_urldecodeInPlace` — no byte is written that has not been read
* `formDecoding` — keys and values are decoded whichever way they were encoded
-/

namespace ChilopodCaster

/-! ### Encoding -/

/-- The bytes that are not written as they are: those with a meaning, and the space. -/
def reserved : CString := cstr "&;=+% "

/-- A byte may be written as it is, or by two hexadecimal digits of either case; a space may be a
plus sign. -/
inductive EncodesByte : Byte → CString → Prop
  | plain {c : Byte} (h : c ∉ reserved) : EncodesByte c [c]
  | space : EncodesByte 32 [43]
  | escape {c d₁ d₂ : Byte} (h₁ : hexDigit d₁ = some (c.toNat / 16))
      (h₂ : hexDigit d₂ = some (c.toNat % 16)) : EncodesByte c [37, d₁, d₂]

/-- The bytes are encoded one by one. -/
inductive Encodes : CString → CString → Prop
  | nil : Encodes [] []
  | cons {c : Byte} {s e t : CString} (hc : EncodesByte c e) (hs : Encodes s t) :
      Encodes (c :: s) (e ++ t)

/-- Keys and values, separated by an ampersand or a semicolon. -/
inductive EncodesForm : List (CString × CString) → CString → Prop
  | single {key value k v : CString} (hk : Encodes key k) (hv : Encodes value v) :
      EncodesForm [(key, value)] (k ++ 61 :: v)
  | cons {key value k v t : CString} {sep : Byte} {pairs : List (CString × CString)}
      (hk : Encodes key k) (hv : Encodes value v) (hsep : sep = 38 ∨ sep = 59)
      (ht : EncodesForm pairs t) : EncodesForm ((key, value) :: pairs) (k ++ 61 :: v ++ sep :: t)

/-! ### Decoding one string -/

theorem hexDigit_eq_some {c : Byte} {d : ℕ} (h : hexDigit c = some d) :
    c ∉ reserved ∧ c ≠ 0 := by
  have hall : ∀ c : Byte, ∀ d ∈ hexDigit c, c ∉ reserved ∧ c ≠ 0 := by decide +kernel
  exact hall c d h

theorem urldecode_escape {c d : Byte} {d₁ d₂ : ℕ} (h₁ : hexDigit c = some d₁)
    (h₂ : hexDigit d = some d₂) (src : CString) :
    urldecode (37 :: c :: d :: src) = BitVec.ofNat 8 (d₁ * 16 + d₂) :: urldecode src := by
  refine (urldecode.eq_3 c d src).trans ?_
  rw [h₁, h₂]

/-- One byte more. -/
theorem EncodesByte.urldecode {c : Byte} {e : CString} (h : EncodesByte c e) (t : CString) :
    urldecode (e ++ t) = c :: urldecode t := by
  cases h with
  | plain h =>
    have hplus : c ≠ 43 := fun heq => h (heq ▸ by decide)
    have hpercent : c ≠ 37 := fun heq => h (heq ▸ by decide)
    rw [List.singleton_append, ChilopodCaster.urldecode]
    · exact hplus
    · exact fun _ _ _ heq => absurd heq hpercent
  | space => rfl
  | @escape _ d₁ d₂ h₁ h₂ =>
    have hdiv : c.toNat / 16 * 16 + c.toNat % 16 = c.toNat := by omega
    exact (urldecode_escape h₁ h₂ t).trans
      (by rw [hdiv, BitVec.ofNat_toNat, BitVec.setWidth_eq])

/-- **What was encoded is decoded.** -/
theorem Encodes.urldecode {s t : CString} (h : Encodes s t) : urldecode t = s := by
  induction h with
  | nil => rfl
  | cons hc _ ih => rw [hc.urldecode, ih]

theorem Encodes.urldecodeC {s t : CString} (h : Encodes s t) (hnul : 0 ∉ s) : urldecodeC t = s := by
  rw [ChilopodCaster.urldecodeC, h.urldecode, toCString_of_not_mem hnul]

/-- The separators are not in an encoded string. -/
theorem Encodes.not_mem {s t : CString} (h : Encodes s t) : ∀ c ∈ t, c ≠ 38 ∧ c ≠ 59 ∧ c ≠ 61 := by
  have hplain {c : Byte} (h : c ∉ reserved) : c ≠ 38 ∧ c ≠ 59 ∧ c ≠ 61 :=
    ⟨fun heq => h (heq ▸ by decide), fun heq => h (heq ▸ by decide),
      fun heq => h (heq ▸ by decide)⟩
  induction h with
  | nil => exact fun _ hmem => absurd hmem List.not_mem_nil
  | @cons c s e t hc _ ih =>
    intro d hd
    rcases List.mem_append.mp hd with hd | hd
    · cases hc with
      | plain h => exact List.mem_singleton.mp hd ▸ hplain h
      | space => exact List.mem_singleton.mp hd ▸ by decide
      | escape h₁ h₂ =>
        rw [List.mem_cons, List.mem_cons, List.mem_singleton] at hd
        rcases hd with rfl | rfl | rfl
        · decide
        · exact hplain (hexDigit_eq_some h₁).1
        · exact hplain (hexDigit_eq_some h₂).1
    · exact ih d hd

/-! ### Cutting up a form -/

/-- Whether the byte ends an argument. -/
def isSep (c : Byte) : Bool := c = 38 ∨ c = 59

/-- The key and the value of an encoded argument. -/
theorem keyval_encoded {key value k v : CString} (hk : Encodes key k) (hv : Encodes value v)
    (hkey : 0 ∉ key) (hvalue : 0 ∉ value) : keyval (k ++ 61 :: v) = (key, value) := by
  have hbefore : ∀ c ∈ k, decide (c ≠ 61) = true := fun c hc =>
    decide_eq_true (hk.not_mem c hc).2.2
  have hwhile : (k ++ 61 :: v).takeWhile (· ≠ 61) = k := by
    rw [List.takeWhile_append_of_pos hbefore]
    exact List.append_nil k
  have htail : ((k ++ 61 :: v).dropWhile (· ≠ 61)).tail = v := by
    rw [List.dropWhile_append_of_pos hbefore]
    rfl
  rw [keyval, hwhile, htail, hk.urldecodeC hkey, hv.urldecodeC hvalue]

theorem not_isSep_encoded {key value k v : CString} (hk : Encodes key k) (hv : Encodes value v) :
    ∀ c ∈ k ++ 61 :: v, isSep c = false := by
  intro c hc
  have hne : c ≠ 38 ∧ c ≠ 59 := by
    rcases List.mem_append.mp hc with hc | hc
    · exact ⟨(hk.not_mem c hc).1, (hk.not_mem c hc).2.1⟩
    · rcases List.mem_cons.mp hc with rfl | hc
      · decide
      · exact ⟨(hv.not_mem c hc).1, (hv.not_mem c hc).2.1⟩
  exact decide_eq_false (not_or.mpr hne)

/-- **The arguments of a form are its keys and values.** -/
theorem EncodesForm.map_keyval {pairs : List (CString × CString)} {s : CString}
    (h : EncodesForm pairs s) (hnul : ∀ p ∈ pairs, 0 ∉ p.1 ∧ 0 ∉ p.2) :
    (s.splitOnP isSep).map keyval = pairs := by
  induction h with
  | single hk hv =>
    have hp := hnul _ (List.mem_singleton_self _)
    rw [List.splitOnP_eq_singleton (not_isSep_encoded hk hv), List.map_singleton,
      keyval_encoded hk hv hp.1 hp.2]
  | cons hk hv hsep _ ih =>
    have hp := hnul _ List.mem_cons_self
    rw [List.splitOnP_append_cons_of_forall_mem (not_isSep_encoded hk hv) _
      (decide_eq_true hsep), List.map_cons,
      keyval_encoded hk hv hp.1 hp.2, ih fun p hmem => hnul p (List.mem_cons_of_mem _ hmem)]

/-! ### Filling the table -/

namespace HashTable

variable {V : Type} {entries : List (CString × V)} {this that : HashTable V}

/-- Entries are added one after the other. -/
def addAll (this : HashTable V) (entries : List (CString × V)) : Option (HashTable V) :=
  entries.foldlM (fun h e => h.add e.1 e.2) this

/-- **It fails if a key comes twice**, or is in the table. -/
theorem addAll_eq_none_iff : this.addAll entries = none ↔
    ¬ (entries.map Prod.fst).Nodup ∨ ∃ e ∈ entries, this.get e.1 ≠ none := by
  induction entries generalizing this with
  | nil => simp [addAll]
  | cons e entries ih =>
    rw [addAll, List.foldlM_cons]
    cases hget : this.get e.1 with
    | some value =>
      have hadd : this.add e.1 e.2 = none := by
        cases hadd : this.add e.1 e.2 with
        | none => rfl
        | some next => rw [get_eq_none_of_add hadd] at hget; contradiction
      rw [hadd]
      refine iff_of_true rfl (.inr ⟨e, List.mem_cons_self, ?_⟩)
      rw [hget]
      exact Option.some_ne_none value
    | none =>
      obtain ⟨next, hadd⟩ := exists_add hget e.2
      have hnext : (∃ e' ∈ entries, next.get e'.1 ≠ none) ↔
          e.1 ∈ entries.map Prod.fst ∨ ∃ e' ∈ entries, this.get e'.1 ≠ none := by
        constructor
        · rintro ⟨e', he', hne⟩
          rw [get_add hadd] at hne
          by_cases hkey : e'.1 = e.1
          · exact .inl (hkey ▸ List.mem_map_of_mem he')
          · rw [if_neg hkey] at hne
            exact .inr ⟨e', he', hne⟩
        · rintro (hmem | ⟨e', he', hne⟩)
          · obtain ⟨e', he', hkey⟩ := List.mem_map.mp hmem
            exact ⟨e', he', by rw [get_add hadd, if_pos hkey]; exact Option.some_ne_none _⟩
          · refine ⟨e', he', ?_⟩
            rw [get_add hadd]
            split
            · exact Option.some_ne_none _
            · exact hne
      rw [hadd, Option.bind_eq_bind, Option.bind_some, ← addAll, ih, hnext, List.map_cons,
        List.nodup_cons, List.exists_mem_cons_iff, not_and_or, not_not,
        or_iff_right (not_not.mpr hget), or_left_comm, or_assoc]

/-- **The table has the entries that were added.** -/
theorem get_addAll (h : this.addAll entries = some that) (key : CString) (value : V) :
    that.get key = some value ↔ (key, value) ∈ entries ∨ this.get key = some value := by
  induction entries generalizing this with
  | nil =>
    obtain rfl := Option.some.inj h
    simp
  | cons e entries ih =>
    obtain ⟨next, hadd, hrest⟩ := Option.bind_eq_some_iff.mp h
    rw [ih hrest, get_add hadd, List.mem_cons]
    by_cases hkey : key = e.1
    · rw [if_pos hkey, hkey, get_eq_none_of_add hadd, Prod.ext_iff]
      simp [or_comm, eq_comm]
    · have hne : (key, value) ≠ e := fun heq => hkey (heq ▸ rfl)
      rw [if_neg hkey, or_iff_right hne]

end HashTable

theorem hashFromUrlencoding_eq (s : CString) :
    hashFromUrlencoding (some s) =
      (HashTable.new 37 zero_lt_37).addAll ((s.splitOnP isSep).map keyval) := by
  rw [HashTable.addAll, List.foldlM_map]
  rfl

/-- **A key that is given twice is an error**, in every text. -/
theorem hashFromUrlencoding_eq_none_iff (s : CString) :
    hashFromUrlencoding (some s) = none ↔
      ¬ (((s.splitOnP isSep).map keyval).map Prod.fst).Nodup := by
  rw [hashFromUrlencoding_eq, HashTable.addAll_eq_none_iff, or_iff_left]
  rintro ⟨e, -, hget⟩
  exact hget (HashTable.get_new zero_lt_37 e.1)

/-! ### Decoding in place -/

/-- `*dst = c`, where the bytes before the place `done` have been read; `none` is a write beyond
them. -/
def writeAt (done dst : ℕ) (c : Byte) (buf : List Byte) : Option (List Byte) :=
  if dst < done then some (buf.set dst c) else none

/-- The byte that an escape at `src` stands for, if there is one there. The outer option is `none`
if what is read is outside of the buffer. -/
def escapeAt (buf : List Byte) (src : ℕ) : Option (Option Byte) := do
  let c ← buf[src]?
  if c ≠ 37 then return none
  let c ← buf[src + 1]?
  match hexDigit c with
  | none => return none
  | some d1 =>
    let c ← buf[src + 2]?
    return (hexDigit c).map fun d2 => BitVec.ofNat 8 (d1 * 16 + d2)

/-- The main loop of `urldecode`, for so many rounds at most. -/
def urldecodeLoop : ℕ → List Byte → ℕ → ℕ → Option (List Byte)
  | 0, _, _, _ => none
  | rounds + 1, buf, src, dst => do
    let c ← buf[src]?
    if c = 0 then writeAt (src + 1) dst 0 buf
    else if c = 43 then
      urldecodeLoop rounds (← writeAt (src + 1) dst 32 buf) (src + 1) (dst + 1)
    else
      match ← escapeAt buf src with
      | some c => urldecodeLoop rounds (← writeAt (src + 3) dst c buf) (src + 3) (dst + 1)
      | none => urldecodeLoop rounds (← writeAt (src + 1) dst c buf) (src + 1) (dst + 1)

/-- The bytes that the first loop of `urldecode` goes over. -/
def isCopied (c : Byte) : Bool := c ≠ 0 ∧ c ≠ 43 ∧ c ≠ 37

/-- `urldecode`, on a buffer with a string in it. The first loop writes nothing; the main loop makes
no more rounds than there are bytes. -/
def urldecodeInPlace (buf : List Byte) : Option (List Byte) := do
  let src := (buf.takeWhile isCopied).length
  let c ← buf[src]?
  if c = 0 then return buf
  else urldecodeLoop buf.length buf src src

theorem escapeAt_eq_some {c d : Byte} {d₁ d₂ : ℕ} (h₁ : hexDigit c = some d₁)
    (h₂ : hexDigit d = some d₂) (before t : List Byte) :
    escapeAt (before ++ 37 :: c :: d :: t) before.length =
      some (some (BitVec.ofNat 8 (d₁ * 16 + d₂))) := by
  simp [escapeAt, h₁, h₂]

/-- A byte that is copied is not the beginning of an escape; the NUL at the end of the string keeps
what is read within the buffer. -/
theorem escapeAt_eq_none {c : Byte} {t : CString} (before rest : List Byte)
    (h : ∀ x y t', c = 37 → t = x :: y :: t' → hexDigit x = none ∨ hexDigit y = none) :
    escapeAt (before ++ (c :: t ++ 0 :: rest)) before.length = some none := by
  have hnul : hexDigit 0#8 = none := rfl
  by_cases hc : c = 37#8
  · cases t with
    | nil => simp [escapeAt, hc, hnul]
    | cons x t =>
      cases hx : hexDigit x with
      | none => simp [escapeAt, hc, hx]
      | some d₁ =>
        cases t with
        | nil => simp [escapeAt, hc, hx, hnul]
        | cons y t =>
          have hy : hexDigit y = none := (h x y t hc rfl).resolve_left (by rw [hx]; simp)
          simp [escapeAt, hc, hx, hy]
  · simp [escapeAt, hc]

/-- What is written goes to the first of the bytes that have been read and not been written to. -/
theorem writeAt_eq {gap : List Byte} (hgap : gap ≠ []) (before rest : List Byte) (c : Byte) :
    writeAt (before.length + gap.length) before.length c (before ++ (gap ++ rest)) =
      some (before ++ [c] ++ (gap.tail ++ rest)) := by
  obtain ⟨g, gap, rfl⟩ := List.exists_cons_of_ne_nil hgap
  rw [writeAt, if_pos (by rw [List.length_cons]; omega), List.set_append_right _ _ le_rfl,
    Nat.sub_self, List.append_assoc]
  rfl

/-- What the main loop does to a string: before it, `before` has been written, and `gap` has been
read and not written to. -/
def Decoded (t : CString) : Prop :=
  ∀ (before gap rest : List Byte) (rounds : ℕ), t.length < rounds →
    ∃ gap' : List Byte, urldecodeLoop rounds (before ++ (gap ++ (t ++ 0 :: rest)))
        (before.length + gap.length) before.length =
          some (before ++ (urldecode t ++ 0 :: (gap' ++ rest))) ∧
      (urldecode t).length + gap'.length = gap.length + t.length

/-- **One round of the loop**: the bytes of `e` are read and one byte is written. -/
theorem Decoded.round {t : CString} (ih : Decoded t) {e : CString} (he : e ≠ [])
    (before gap rest : List Byte) (c : Byte) {rounds : ℕ} (hrounds : t.length < rounds) :
    ∃ gap', ((writeAt (before.length + gap.length + e.length) before.length c
        (before ++ (gap ++ (e ++ t ++ 0 :: rest)))).bind fun buf =>
          urldecodeLoop rounds buf (before.length + gap.length + e.length) (before.length + 1)) =
          some (before ++ (c :: urldecode t ++ 0 :: (gap' ++ rest))) ∧
      (c :: urldecode t).length + gap'.length = gap.length + (e ++ t).length := by
  have hne : gap ++ e ≠ [] := fun h => he (List.append_eq_nil_iff.mp h).2
  have hwrite := writeAt_eq hne before (t ++ 0 :: rest) c
  have htail : (gap ++ e).tail.length + 1 = gap.length + e.length := by
    have hpos := List.length_pos_iff.mpr hne
    rw [List.length_append] at hpos
    rw [List.length_tail, List.length_append]
    omega
  have hdst : (before ++ [c]).length = before.length + 1 := List.length_append
  have hsrc : before.length + gap.length + e.length =
      (before ++ [c]).length + (gap ++ e).tail.length := by omega
  obtain ⟨gap', hloop, hlen⟩ := ih (before ++ [c]) (gap ++ e).tail rest rounds hrounds
  rw [List.length_append, ← Nat.add_assoc] at hwrite
  rw [hdst, ← hdst, ← hsrc, hdst] at hloop
  refine ⟨gap', ?_, ?_⟩
  · rw [List.append_assoc e, ← List.append_assoc gap, hwrite, Option.bind_some, hloop,
      List.append_assoc before]
    rfl
  · rw [List.length_cons, List.length_append]
    omega

theorem getElem?_src (before gap t : List Byte) (c : Byte) :
    (before ++ (gap ++ c :: t))[before.length + gap.length]? = some c := by
  rw [← List.append_assoc, ← List.length_append, List.getElem?_append_right le_rfl, Nat.sub_self]
  rfl

/-- A byte that is copied. -/
theorem Decoded.copy {c : Byte} {t : CString} (ih : Decoded t) (hc : c ≠ 0) (hplus : c ≠ 43)
    (h : ∀ x y t', c = 37 → t = x :: y :: t' → hexDigit x = none ∨ hexDigit y = none)
    (hdecode : urldecode (c :: t) = c :: urldecode t) : Decoded (c :: t) := by
  intro before gap rest rounds hrounds
  obtain ⟨rounds, rfl⟩ := Nat.exists_eq_add_one_of_ne_zero (Nat.ne_zero_of_lt hrounds)
  obtain ⟨gap', hround, hlen⟩ := ih.round (List.cons_ne_nil c []) before gap rest c
    (Nat.lt_of_succ_lt_succ hrounds)
  have hescape := escapeAt_eq_none (before ++ gap) rest h
  rw [List.length_append, List.append_assoc] at hescape
  refine ⟨gap', ?_, by rw [hdecode]; exact hlen⟩
  rw [urldecodeLoop, List.cons_append, getElem?_src, hdecode]
  simp only [Option.bind_eq_bind, Option.bind_some]
  rw [if_neg hc, if_neg hplus, ← List.cons_append, hescape, Option.bind_some]
  exact hround

/-- **The main loop decodes the string.** -/
theorem decoded {t : CString} (hnul : 0 ∉ t) : Decoded t := by
  induction t using urldecode.induct with
  | case1 =>
    intro before gap rest rounds hrounds
    obtain ⟨rounds, rfl⟩ := Nat.exists_eq_add_one_of_ne_zero (Nat.ne_zero_of_lt hrounds)
    have hne : gap ++ [0] ≠ [] := List.append_ne_nil_of_right_ne_nil gap (List.cons_ne_nil 0 [])
    have hwrite := writeAt_eq hne before rest 0
    rw [List.length_append, List.length_singleton, ← Nat.add_assoc, List.append_assoc,
      List.singleton_append] at hwrite
    refine ⟨(gap ++ [0]).tail, ?_, ?_⟩
    · rw [urldecodeLoop, List.nil_append, getElem?_src]
      simp only [Option.bind_eq_bind, Option.bind_some]
      rw [if_pos trivial, hwrite, List.append_assoc]
      rfl
    · rw [List.length_tail, List.length_append]
      exact Nat.zero_add _
  | case2 src ih =>
    intro before gap rest rounds hrounds
    obtain ⟨rounds, rfl⟩ := Nat.exists_eq_add_one_of_ne_zero (Nat.ne_zero_of_lt hrounds)
    obtain ⟨gap', hround, hlen⟩ := (ih fun h => hnul (List.mem_cons_of_mem _ h)).round
      (List.cons_ne_nil 43 []) before gap rest 32 (Nat.lt_of_succ_lt_succ hrounds)
    refine ⟨gap', ?_, hlen⟩
    rw [urldecodeLoop, List.cons_append, getElem?_src]
    simp only [Option.bind_eq_bind, Option.bind_some]
    rw [if_neg (by decide), if_pos (by decide)]
    exact hround
  | case3 c d src d1 d2 h₂ h₁ ih =>
    intro before gap rest rounds hrounds
    obtain ⟨rounds, rfl⟩ := Nat.exists_eq_add_one_of_ne_zero (Nat.ne_zero_of_lt hrounds)
    have hsrc : 0 ∉ src := fun h =>
      hnul (List.mem_cons_of_mem _ (List.mem_cons_of_mem _ (List.mem_cons_of_mem _ h)))
    rw [List.length_cons, List.length_cons, List.length_cons] at hrounds
    have hbound : src.length < rounds := by omega
    obtain ⟨gap', hround, hlen⟩ := (ih hsrc).round (List.cons_ne_nil 37 [c, d]) before gap rest
      (BitVec.ofNat 8 (d1 * 16 + d2)) hbound
    have hescape : escapeAt (before ++ gap ++ 37#8 :: c :: d :: (src ++ 0 :: rest))
        (before ++ gap).length = _ := escapeAt_eq_some h₁ h₂ (before ++ gap) (src ++ 0 :: rest)
    rw [List.length_append, List.append_assoc] at hescape
    have hdecode : urldecode (37#8 :: c :: d :: src) = _ := urldecode_escape h₁ h₂ src
    refine ⟨gap', ?_, by rw [hdecode]; exact hlen⟩
    rw [urldecodeLoop, List.cons_append, getElem?_src, hdecode]
    simp only [Option.bind_eq_bind, Option.bind_some]
    rw [if_neg (by decide), if_neg (by decide), List.cons_append, List.cons_append, hescape,
      Option.bind_some]
    exact hround
  | case4 c d src h ih =>
    have hrest : 0 ∉ c :: d :: src := fun h => hnul (List.mem_cons_of_mem _ h)
    have hnone : hexDigit c = none ∨ hexDigit d = none := by
      cases h₁ : hexDigit c with
      | none => exact .inl rfl
      | some d₁ =>
        cases h₂ : hexDigit d with
        | none => exact .inr rfl
        | some d₂ => exact absurd h₂ (h d₁ d₂ h₁)
    refine (ih hrest).copy (by decide) (by decide) ?_ ?_
    · rintro x y t' - heq
      obtain ⟨rfl, htail⟩ := List.cons.inj heq
      obtain ⟨rfl, -⟩ := List.cons.inj htail
      exact hnone
    · refine (urldecode.eq_3 c d src).trans ?_
      split
      · next h₁ h₂ => exact absurd h₂ (h _ _ h₁)
      · rfl
  | case5 c src hplus h ih =>
    refine (ih fun h => hnul (List.mem_cons_of_mem _ h)).copy
      (fun heq => hnul (heq ▸ List.mem_cons_self)) hplus ?_ ?_
    · intro x y t' hc heq
      exact absurd heq (h x y t' hc)
    · exact urldecode.eq_4 c src hplus h

/-- A string without escapes is left as it is. -/
theorem urldecode_append_of_forall {s : CString} (h : ∀ c ∈ s, c ≠ 43 ∧ c ≠ 37) (t : CString) :
    urldecode (s ++ t) = s ++ urldecode t := by
  induction s with
  | nil => rfl
  | cons c s ih =>
    obtain ⟨hplus, hpercent⟩ := h c List.mem_cons_self
    rw [List.cons_append, List.cons_append, ← ih fun d hd => h d (List.mem_cons_of_mem c hd)]
    exact urldecode.eq_4 c _ hplus fun _ _ _ heq => absurd heq hpercent

/-- **Decoding in place**: no byte is written that has not been read, and the string becomes the
decoded one; what comes after it is left alone. -/
theorem exists_urldecodeInPlace {t : CString} (hnul : 0 ∉ t) (rest : List Byte) :
    ∃ gap : List Byte,
      urldecodeInPlace (t ++ 0 :: rest) = some (urldecode t ++ 0 :: (gap ++ rest)) ∧
      (urldecode t).length + gap.length = t.length := by
  have hsplit := (List.takeWhile_append_dropWhile (p := isCopied) (l := t)).symm
  obtain ⟨skip, hskip⟩ : ∃ skip, skip = t.takeWhile isCopied := ⟨_, rfl⟩
  have hcopied : ∀ c ∈ skip, isCopied c = true := fun c hc => List.mem_takeWhile_imp (hskip ▸ hc)
  have hdecode (s : CString) : urldecode (skip ++ s) = skip ++ urldecode s :=
    urldecode_append_of_forall (fun c hc => (of_decide_eq_true (hcopied c hc)).2) s
  have hprefix (c : Byte) (s : List Byte) (hc : isCopied c = false) :
      (skip ++ c :: s).takeWhile isCopied = skip := by
    rw [List.takeWhile_append_of_pos hcopied, List.takeWhile_cons, hc, if_neg Bool.false_ne_true,
      List.append_nil]
  rw [← hskip] at hsplit
  cases hrest : t.dropWhile isCopied with
  | nil =>
    rw [hrest, List.append_nil] at hsplit
    have hsame := hdecode []
    rw [List.append_nil, urldecode, List.append_nil] at hsame
    rw [hsplit, hsame]
    refine ⟨[], ?_, Nat.add_zero _⟩
    rw [urldecodeInPlace, hprefix 0 rest rfl, List.getElem?_append_right le_rfl, Nat.sub_self]
    rfl
  | cons c s =>
    have hstop : isCopied c = false := by
      have h := List.head?_dropWhile_not isCopied t
      rw [hrest] at h
      exact h
    rw [hrest] at hsplit
    have hs : 0 ∉ c :: s := fun h => hnul (hsplit ▸ List.mem_append_right skip h)
    have hc : c ≠ 0 := fun h => hs (h ▸ List.mem_cons_self)
    obtain ⟨gap, hloop, hlen⟩ := decoded hs skip [] rest (skip ++ c :: s ++ 0 :: rest).length (by
      rw [List.length_append, List.length_append, List.length_cons (a := 0)]
      omega)
    refine ⟨gap, ?_, ?_⟩
    · rw [List.nil_append, List.length_nil, Nat.add_zero, ← List.append_assoc] at hloop
      rw [hsplit, hdecode, urldecodeInPlace, List.append_assoc, List.cons_append,
        hprefix c _ hstop, List.getElem?_append_right le_rfl, Nat.sub_self, List.getElem?_cons_zero]
      simp only [Option.bind_eq_bind, Option.bind_some]
      rw [if_neg hc, ← List.cons_append, ← List.append_assoc, hloop, List.append_assoc]
    · rw [hsplit, hdecode, List.length_append, List.length_append]
      rw [List.length_nil] at hlen
      omega

/-- It is `urldecode`, on the string in the buffer. -/
theorem toCString_of_urldecodeInPlace {t : CString} {rest buf : List Byte} (hnul : 0 ∉ t)
    (h : urldecodeInPlace (t ++ 0 :: rest) = some buf) : toCString buf = urldecodeC t := by
  obtain ⟨gap, hgap, -⟩ := exists_urldecodeInPlace hnul rest
  obtain rfl := Option.some.inj (hgap.symm.trans h)
  rw [urldecodeC, toCString, toCString, List.takeWhile_append]
  split
  · next hall =>
    have hsame := (List.takeWhile_prefix (p := (· ≠ 0)) (l := urldecode t)).eq_of_length hall
    rw [hsame]
    exact List.append_nil _
  · rfl

/-! ### Forms -/

/-- **Forms are decoded**, whichever way they were encoded, and the decoding of a part stays within
what has been read. -/
theorem formDecoding {pairs : List (CString × CString)} {s : CString} (h : EncodesForm pairs s)
    (hnul : ∀ p ∈ pairs, 0 ∉ p.1 ∧ 0 ∉ p.2) :
    ((pairs.map Prod.fst).Nodup → ∃ table, hashFromUrlencoding (some s) = some table ∧
      ∀ key value, table.get key = some value ↔ (key, value) ∈ pairs) ∧
    (¬ (pairs.map Prod.fst).Nodup → hashFromUrlencoding (some s) = none) ∧
    ∀ t rest, 0 ∉ t → ∃ gap,
      urldecodeInPlace (t ++ 0 :: rest) = some (urldecode t ++ 0 :: (gap ++ rest)) ∧
        (urldecode t).length + gap.length = t.length := by
  have hnone := hashFromUrlencoding_eq_none_iff s
  rw [h.map_keyval hnul] at hnone
  refine ⟨fun hnd => ?_, hnone.mpr, fun t rest ht => exists_urldecodeInPlace ht rest⟩
  obtain ⟨table, htable⟩ := Option.ne_none_iff_exists'.mp fun heq => hnone.mp heq hnd
  refine ⟨table, htable, fun key value => ?_⟩
  rw [hashFromUrlencoding_eq, h.map_keyval hnul] at htable
  rw [HashTable.get_addAll htable, HashTable.get_new, or_iff_left (Option.some_ne_none value).symm]

/-- A key with an equals sign and a value with a space, two ways, and a pair after them. -/
theorem formDecoding_escaped : ∃ pairs : List (CString × CString),
    EncodesForm pairs (cstr "a%3db=c+%20;d=%2B") ∧
    pairs = [(cstr "a=b", cstr "c  "), (cstr "d", cstr "+")] ∧
    ∃ table, hashFromUrlencoding (some (cstr "a%3db=c+%20;d=%2B")) = some table ∧
      ∀ key value, table.get key = some value ↔ (key, value) ∈ pairs := by
  have hplain {c : Byte} {s t : CString} (hc : c ∉ reserved) (h : Encodes s t) :
      Encodes (c :: s) (c :: t) := .cons (.plain hc) h
  have hescape {c d₁ d₂ : Byte} {s t : CString} (h₁ : hexDigit d₁ = some (c.toNat / 16))
      (h₂ : hexDigit d₂ = some (c.toNat % 16)) (h : Encodes s t) :
      Encodes (c :: s) (37 :: d₁ :: d₂ :: t) := .cons (.escape h₁ h₂) h
  have hform : EncodesForm [(cstr "a=b", cstr "c  "), (cstr "d", cstr "+")]
      (cstr "a%3db=c+%20;d=%2B") := by
    have hkey : Encodes (cstr "a=b") (cstr "a%3db") :=
      hplain (by decide) (hescape rfl rfl (hplain (by decide) .nil))
    have hvalue : Encodes (cstr "c  ") (cstr "c+%20") :=
      hplain (by decide) (.cons .space (hescape rfl rfl .nil))
    have hlast : Encodes (cstr "+") (cstr "%2B") := hescape rfl rfl .nil
    exact .cons hkey hvalue (.inr rfl) (.single (hplain (by decide) .nil) hlast)
  exact ⟨_, hform, rfl, (formDecoding hform (by decide)).1 (by decide)⟩

end ChilopodCaster
