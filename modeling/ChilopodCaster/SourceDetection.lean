import ChilopodCaster.JsonText
import ChilopodCaster.Rtcm.TypeList
import ChilopodCaster.SourcetableJson
import ChilopodCaster.SourcetableRequests

/-!
# Detection of a source

The API can fill in a source line from what was received of the source: the types of its messages,
the navigation systems that these types are about, and its position. The answer repeats what was
found. It is printed into a buffer of 400 bytes, by up to four calls of `snprintf`, each where the
one before it ended.

What `snprintf` returns is the length of the whole text, and not of what there was room for. The
next call then prints after the end of the buffer, and the room that it is told is the difference of
two `size_t`, the first of them the smaller one.

## Main definitions

* `snprintf`, `printNext` — one call, and one of a series of calls
* `Systems`, `Systems.str` — the navigation systems, and `rtcm_info_get_nav_system`
* `detectedReply` — the answer
* `apiDetectSourceJson` — `api_detect_source_json`
* `DetectedInFull` — what is expected of the answer

## Main results

* `Printed.run` — what a series of calls leaves in the buffer
* `detectedInFull_iff` — when the answer fits
-/

namespace ChilopodCaster

open Rtcm

/-! ### A series of calls -/

/-- `snprintf(r + rp, size, ...)`, where `s` is the whole text. -/
def snprintf (r : List Byte) (rp size : ℕ) (s : CString) : Option (List Byte) :=
  if size = 0 then some r else store r rp (s.take (size - 1) ++ [0])

/-- `sizeof(r) - n`, as a `size_t`. -/
def remaining (sizeof n : ℕ) : ℕ := (BitVec.ofNat 64 sizeof - BitVec.ofNat 64 n).toNat

/-- `n += snprintf(r + n, sizeof(r) - n, ...)`. The state is the buffer, and `n`. -/
def printNext (sizeof : ℕ) (st : List Byte × ℕ) (s : CString) : Option (List Byte × ℕ) :=
  (snprintf st.1 st.2 (remaining sizeof st.2) s).map fun r => (r, st.2 + s.length)

theorem remaining_of_le {sizeof n : ℕ} (hsizeof : sizeof < 2 ^ 64) (h : n ≤ sizeof) :
    remaining sizeof n = sizeof - n := by
  have hle : BitVec.ofNat 64 n ≤ BitVec.ofNat 64 sizeof := by
    rw [BitVec.le_def, BitVec.toNat_ofNat, BitVec.toNat_ofNat, Nat.mod_eq_of_lt hsizeof,
      Nat.mod_eq_of_lt (by omega)]
    exact h
  rw [remaining, BitVec.toNat_sub_of_le hle, BitVec.toNat_ofNat, BitVec.toNat_ofNat,
    Nat.mod_eq_of_lt hsizeof, Nat.mod_eq_of_lt (by omega)]

/-- Calls printed `t`: the buffer holds as much of it as there is room for. -/
structure Printed (sizeof : ℕ) (t : CString) (st : List Byte × ℕ) : Prop where
  length : st.1.length = sizeof
  offset : st.2 = t.length
  text : ∃ tail, st.1 = t.take (sizeof - 1) ++ 0 :: tail

variable {sizeof : ℕ}

/-- A call that starts in the buffer. -/
theorem exists_printNext (hsizeof : sizeof < 2 ^ 64) {t tail : List Byte}
    (hlength : (t ++ tail).length = sizeof) (hroom : t.length < sizeof) (s : CString) :
    ∃ st, printNext sizeof (t ++ tail, t.length) s = some st ∧ Printed sizeof (t ++ s) st := by
  rw [List.length_append] at hlength
  have hsize : sizeof - t.length ≠ 0 := by omega
  have hwritten : (s.take (sizeof - t.length - 1) ++ [0]).length ≤ tail.length := by
    rw [List.length_append, List.length_take, List.length_singleton]
    omega
  have htext : (t ++ s).take (sizeof - 1) = t ++ s.take (sizeof - t.length - 1) := by
    rw [List.take_append, List.take_of_length_le (by omega)]
    congr 2
    omega
  have hoffset : (t ++ s).length = t.length + s.length := List.length_append
  refine ⟨(t ++ (s.take (sizeof - t.length - 1) ++ [0] ++
    tail.drop (s.take (sizeof - t.length - 1) ++ [0]).length), (t ++ s).length), ?_, ?_, rfl,
    tail.drop (s.take (sizeof - t.length - 1) ++ [0]).length, ?_⟩
  · rw [printNext, remaining_of_le hsizeof hroom.le, snprintf, if_neg hsize, store_append hwritten,
      hoffset]
    rfl
  · rw [List.length_append, List.length_append, List.length_drop]
    omega
  · rw [htext, List.append_assoc, List.append_assoc]
    rfl

/-- The first call. -/
theorem exists_printNext_zero (hsizeof : sizeof < 2 ^ 64) (hne : 0 < sizeof) {r : List Byte}
    (hlength : r.length = sizeof) (s : CString) :
    ∃ st, printNext sizeof (r, 0) s = some st ∧ Printed sizeof s st :=
  exists_printNext hsizeof (t := []) hlength hne s

/-- What comes after the end of the buffer is not printed into it. -/
theorem eq_of_snprintf {r r' : List Byte} {rp size : ℕ} {s : CString} (h : r.length < rp)
    (hr : snprintf r rp size s = some r') : r' = r := by
  rw [snprintf] at hr
  split at hr
  · exact (Option.some.inj hr).symm
  · rw [store, if_neg (by omega)] at hr
    contradiction

/-- **One call.** -/
theorem Printed.next (hsizeof : sizeof < 2 ^ 64) {t : CString} {st : List Byte × ℕ}
    (h : Printed sizeof t st) (s : CString) :
    (t.length ≤ sizeof → ∃ st', printNext sizeof st s = some st') ∧
      ∀ st', printNext sizeof st s = some st' → Printed sizeof (t ++ s) st' := by
  obtain ⟨r, n⟩ := st
  obtain ⟨hlength, rfl, tail, rfl⟩ := h
  rcases lt_or_ge t.length sizeof with hlt | hge
  · have hwhole : t.take (sizeof - 1) = t := List.take_of_length_le (by omega)
    rw [hwhole] at hlength ⊢
    obtain ⟨st', hst', hprinted⟩ := exists_printNext hsizeof hlength hlt s
    rw [hst']
    refine ⟨fun _ => ⟨st', rfl⟩, fun st'' h => ?_⟩
    obtain rfl := Option.some.inj h
    exact hprinted
  · have htext : (t ++ s).take (sizeof - 1) = t.take (sizeof - 1) :=
      List.take_append_of_le_length (by omega)
    have hsame : ∀ r', snprintf (t.take (sizeof - 1) ++ 0 :: tail) t.length
        (remaining sizeof t.length) s = some r' → r' = t.take (sizeof - 1) ++ 0 :: tail := by
      intro r' hr'
      rcases hge.eq_or_lt with heq | hgt
      · rw [← heq, remaining_of_le hsizeof le_rfl, Nat.sub_self, snprintf, if_pos rfl] at hr'
        exact (Option.some.inj hr').symm
      · exact eq_of_snprintf (hlength.trans_lt hgt) hr'
    constructor
    · intro hle
      have heq : t.length = sizeof := le_antisymm hle hge
      rw [printNext, heq, remaining_of_le hsizeof le_rfl, Nat.sub_self, snprintf, if_pos rfl]
      exact ⟨_, rfl⟩
    · intro st' hst'
      obtain ⟨r', hr', rfl⟩ := Option.map_eq_some_iff.mp hst'
      obtain rfl := hsame r' hr'
      exact ⟨hlength, List.length_append.symm, tail, by rw [htext]⟩

/-- **A series of calls.** It stays in the buffer when the whole text is no longer than it, and
where it does it leaves as much of the text as there is room for. -/
theorem Printed.run (hsizeof : sizeof < 2 ^ 64) {t : CString} {st : List Byte × ℕ}
    (h : Printed sizeof t st) (l : List CString) :
    ((t ++ l.flatten).length ≤ sizeof → ∃ st', l.foldlM (printNext sizeof) st = some st') ∧
      ∀ st', l.foldlM (printNext sizeof) st = some st' → Printed sizeof (t ++ l.flatten) st' := by
  induction l generalizing t st with
  | nil =>
    refine ⟨fun _ => ⟨st, rfl⟩, fun st' hst' => ?_⟩
    obtain rfl := Option.some.inj hst'
    rw [List.flatten_nil, List.append_nil]
    exact h
  | cons s l ih =>
    obtain ⟨hroom, hnext⟩ := h.next hsizeof s
    rw [List.flatten_cons, ← List.append_assoc]
    constructor
    · intro hle
      obtain ⟨st₁, hst₁⟩ := hroom (by rw [List.length_append, List.length_append] at hle; omega)
      obtain ⟨st', hst'⟩ := (ih (hnext st₁ hst₁)).1 hle
      refine ⟨st', ?_⟩
      rw [List.foldlM_cons, hst₁]
      exact hst'
    · intro st' hst'
      rw [List.foldlM_cons] at hst'
      obtain ⟨st₁, hst₁, hrest⟩ := Option.bind_eq_some_iff.mp hst'
      exact (ih (hnext st₁ hst₁)).2 st' hrest

/-! ### What is found -/

/-- A byte that JSON allows in a string. -/
theorem escapeByte_of_ne {c : Byte} (hlow : 32 ≤ c.toNat) (hquote : c ≠ 0x22) (hback : c ≠ 0x5c)
    (hslash : c ≠ 0x2f) : Json.escapeByte c = [c] := by
  have hcontrol (d : Byte) (hd : d.toNat < 32) : c ≠ d := by
    rintro rfl
    exact absurd hlow (Nat.not_le.mpr hd)
  rw [Json.escapeByte, if_neg (hcontrol 8 (by decide)), if_neg (hcontrol 10 (by decide)),
    if_neg (hcontrol 13 (by decide)), if_neg (hcontrol 9 (by decide)),
    if_neg (hcontrol 12 (by decide)), if_neg hquote, if_neg hback, if_neg hslash,
    if_neg (Nat.not_lt.mpr hlow)]

/-- The number of millionths, to the nearest, and of two to the even one. -/
def millionths (x : ℚ) : ℕ :=
  let q := x.num.natAbs * 10 ^ 6 / x.den
  let r := x.num.natAbs * 10 ^ 6 % x.den
  if 2 * r < x.den ∨ 2 * r = x.den ∧ q % 2 = 0 then q else q + 1

/-- `snprintf` with `%.6f`. -/
def printF (x : ℚ) : CString :=
  (if x < 0 then [45] else []) ++
    (printNat 10 (millionths x / 10 ^ 6) ++ 46 :: IsoDate.pad 6 (millionths x % 10 ^ 6))

/-- `rtcm_typeset_check_range`. -/
def Rtcm.Typeset.checkRange (this : Typeset) (lo hi : ℕ) : Bool :=
  (List.range' lo (hi + 1 - lo)).any this.check

/-- The flags of `rtcm_info_get_nav_system`. -/
structure Systems where
  gps : Bool
  glo : Bool
  gal : Bool
  bds : Bool
  qzs : Bool
  sbas : Bool

/-- The systems that the types seen are about. -/
def Rtcm.Typeset.systems (ts : Typeset) : Systems where
  gps := ts.checkRange 1001 1004 || ts.check 1019 || ts.checkRange 1071 1077
  glo := ts.checkRange 1009 1012 || ts.check 1020 || ts.checkRange 1081 1087
  gal := ts.check 1045 || ts.check 1046 || ts.checkRange 1091 1097
  bds := ts.check 1042 || ts.checkRange 1121 1127
  qzs := ts.check 1044 || ts.checkRange 1111 1117
  sbas := ts.checkRange 1101 1107

namespace Systems

variable (this : Systems)

/-- The names that are printed, with a plus after each. -/
def names : List CString :=
  [if this.gps then cstr "GPS+" else [], if this.glo then cstr "GLO+" else [],
    if this.gal then cstr "GAL+" else [], if this.bds then cstr "BDS+" else [],
    if this.qzs then cstr "QZS+" else [], if this.sbas then cstr "SBAS+" else []]

/-- Nothing is seen. -/
def unseen : Bool :=
  !this.gps && !this.glo && !this.gal && !this.bds && !this.qzs && !this.sbas

/-- The rest of `rtcm_info_get_nav_system`, with what is in `buf`. The answer `some none` is
`NULL`. -/
def str (buf : Vector Byte 32) : Option (Option CString) :=
  if this.unseen then some none
  else do
    let r ← snprintf buf.toList 0 32 this.names.flatten
    let r ← store r (this.names.flatten.length - 1) [0]
    return some (toCString r)

/-- What is returned: the names with a plus between them. -/
def navSystem : Option CString :=
  if this.unseen then none else some this.names.flatten.dropLast

theorem length_names : this.names.flatten.length ≤ 25 := by
  obtain ⟨gps, glo, gal, bds, qzs, sbas⟩ := this
  revert gps glo gal bds qzs sbas
  decide

theorem names_ne_nil (h : this.unseen = false) : this.names.flatten ≠ [] := by
  obtain ⟨gps, glo, gal, bds, qzs, sbas⟩ := this
  revert gps glo gal bds qzs sbas
  decide

/-- No byte of the names is escaped, and none is NUL. -/
theorem escapeByte_names : ∀ c ∈ this.names.flatten, Json.escapeByte c = [c] ∧ c ≠ 0 := by
  have hname (b : Bool) {name : CString}
      (h : ∀ c ∈ name, 32 ≤ c.toNat ∧ c ≠ 0x22 ∧ c ≠ 0x5c ∧ c ≠ 0x2f) :
      ∀ c ∈ if b then name else [], Json.escapeByte c = [c] ∧ c ≠ 0 := by
    cases b with
    | true =>
      intro c hc
      obtain ⟨hlow, hquote, hback, hslash⟩ := h c hc
      refine ⟨escapeByte_of_ne hlow hquote hback hslash, ?_⟩
      rintro rfl
      exact absurd hlow (by decide)
    | false => exact fun c hc => absurd hc List.not_mem_nil
  intro c hc
  simp only [names, List.flatten_cons, List.flatten_nil, List.append_nil, List.mem_append] at hc
  rcases hc with hc | hc | hc | hc | hc | hc
  · exact hname _ (by decide) c hc
  · exact hname _ (by decide) c hc
  · exact hname _ (by decide) c hc
  · exact hname _ (by decide) c hc
  · exact hname _ (by decide) c hc
  · exact hname _ (by decide) c hc

/-- The buffer of 32 bytes is large enough. -/
theorem str_eq (buf : Vector Byte 32) : this.str buf = some this.navSystem := by
  rw [str, navSystem]
  cases hseen : this.unseen with
  | true => rfl
  | false =>
    have hlength := this.length_names
    have hbuf : buf.toList.length = 32 := buf.length_toList
    have hlast := List.dropLast_append_getLast (this.names_ne_nil hseen)
    have hnul : (0 : Byte) ∉ this.names.flatten.dropLast :=
      fun h => (this.escapeByte_names 0 (List.dropLast_subset _ h)).2 rfl
    have hprint : snprintf buf.toList 0 32 this.names.flatten =
        some (this.names.flatten ++ 0 :: buf.toList.drop (this.names.flatten.length + 1)) := by
      have hroom : (this.names.flatten ++ [0]).length ≤ buf.toList.length := by
        rw [List.length_append, List.length_singleton]
        omega
      have hstore := store_append (r := []) hroom
      rw [snprintf, if_neg (by decide), List.take_of_length_le (by omega)]
      refine hstore.trans ?_
      rw [List.nil_append, List.length_append, List.append_assoc]
      rfl
    rw [if_neg Bool.false_ne_true, if_neg Bool.false_ne_true, hprint, Option.bind_eq_bind,
      Option.bind_some, ← List.length_dropLast]
    nth_rewrite 1 [← hlast]
    rw [List.append_assoc, store_append (Nat.le_add_left 1 _)]
    exact congrArg (fun s => some (some s)) (toCString_append_nul hnul _)

end Systems

/-! ### The answer -/

/-- The message about a source of which nothing was received. -/
def unobserved : CString :=
  cstr ("no RTCM3 data observed yet for this mountpoint -- it may not be connected yet, " ++
    "or isn't RTCM3")

/-- What the calls of `snprintf` print, one after the other. -/
def detectedTexts (types : CString) (navSystem : Option CString) (pos : Option (Pos ℚ)) :
    List CString :=
  (cstr "\x7b\"result\": 0, \"types\": \"" ++ (types ++ cstr "\"")) ::
    ((navSystem.toList.map fun nav => cstr ", \"nav_system\": \"" ++ (nav ++ cstr "\"")) ++
      ((pos.toList.map fun pos => cstr ", \"lat\": " ++ (printF pos.lat ++
        (cstr ", \"lon\": " ++ printF pos.lon))) ++ [cstr "\x7d\n"]))

/-- The answer of `api_detect_source_json`, printed into `result`. -/
def detectedReply (result : Vector Byte 400) (types : CString) (navSystem : Option CString)
    (pos : Option (Pos ℚ)) : Option CString :=
  ((detectedTexts types navSystem pos).foldlM (printNext 400) (result.toList, 0)).map fun st =>
    toCString st.1

/-- What `struct rtcm_info` says of a source. The position is what `ecef_to_lat_lon` makes of the
coordinates. -/
structure RtcmInfo where
  typeset : Typeset
  pos : Pos ℚ

/-- `rtcm_info_get_pos`. -/
def RtcmInfo.getPos (this : RtcmInfo) : Option (Pos ℚ) :=
  if !this.typeset.check 1005 && !this.typeset.check 1006 then none else some this.pos

/-- `update_sourcetable_field` on a file: what it returns, and the files after it. -/
def updateFile (env : FileEnv) (filename mountpoint : CString) (targetField : ℕ)
    (newValue : CString) (files : Files) : ℤ × Files :=
  match files filename with
  | none => (-1, files)
  | some content =>
    if env.rewritable filename then
      let copy := updateSourcetableField content mountpoint targetField newValue
      (if copy.2 then 1 else 0, files.write filename copy.1)
    else (-1, files)

/-- The fields that are set once the types are, with their values. -/
def detectedFields (navSystem : Option CString) (pos : Option (Pos ℚ)) : List (ℕ × CString) :=
  (navSystem.toList.map fun nav => (6, nav)) ++
    pos.toList.flatMap fun pos => [(9, printF pos.lat), (10, printF pos.lon)]

/-- `api_detect_source_json`, up to the reload. `malloc` is what is found in memory that was not
written yet. -/
def apiDetectSourceJson (malloc : (n : ℕ) → Vector Byte n) (rtcmCache : CString → Option RtcmInfo)
    (env : FileEnv) (filename : CString) (req : SettingsRequest) (files : Files) :
    Option (Files × Except CString CString) :=
  match removedSource req with
  | .error message => some (files, .error message)
  | .ok mountpoint =>
    match rtcmCache mountpoint with
    | none => some (files, .error unobserved)
    | some info => do
      let r ← rtcmTypesetStr info.typeset (malloc (info.typeset.count * 5 + 1)).toList
      let navSystem ← info.typeset.systems.str (malloc 32)
      if toCString r = [] then some (files, .error unobserved)
      else
        let update := updateFile env filename mountpoint 4 (toCString r) files
        if update.1 ≤ 0 then
          some (update.2, .error (if update.1 < 0 then cstr "cannot rewrite sourcetable_file"
            else cstr "mountpoint not found in sourcetable"))
        else
          let files := (detectedFields navSystem info.getPos).foldl (fun files field =>
            (updateFile env filename mountpoint field.1 field.2 files).2) update.2
          (detectedReply (malloc 400) (toCString r) navSystem info.getPos).map fun reply =>
            (files, .ok reply)

/-! ### What is expected -/

/-- The object that the answer stands for. -/
def detectedObject (this : Typeset) (navSystem : Option CString) (pos : Option (Pos ℚ)) :
    List (CString × Json) :=
  (cstr "result", .int 0) :: (cstr "types", .string (typeList this)) ::
    ((navSystem.toList.map fun nav => (cstr "nav_system", Json.string nav)) ++
      pos.toList.flatMap fun pos =>
        [(cstr "lat", Json.double pos.lat), (cstr "lon", Json.double pos.lon)])

/-- The text of an object, from brace to brace. -/
def bracedText (fields : List (CString × Json)) : CString :=
  cstr "\x7b" ++ (Json.objectText printF [] fields ++ cstr "\x7d")

/-- Nothing is written out of the buffer, and the answer is the whole text of the object. White
space may follow it. -/
def DetectedInFull (malloc : (n : ℕ) → Vector Byte n) (this : Typeset) (systems : Systems)
    (pos : Option (Pos ℚ)) : Prop :=
  ∃ r navSystem reply, rtcmTypesetStr this (malloc (this.count * 5 + 1)).toList = some r ∧
    systems.str (malloc 32) = some navSystem ∧
    detectedReply (malloc 400) (toCString r) navSystem pos = some reply ∧
    ∃ space, (∀ c ∈ space, isspace c = true) ∧
      reply = bracedText (detectedObject this navSystem pos) ++ space

/-! ### The text that is printed -/

theorem quote_of_forall {s : CString} (h : ∀ c ∈ s, Json.escapeByte c = [c]) :
    Json.quote s = 0x22 :: (s ++ [0x22]) := by
  have hflat : s.flatMap Json.escapeByte = s := by
    rw [List.flatMap_congr h, List.flatMap_singleton']
  rw [Json.quote, hflat]

/-- What stands before the value of a field. -/
def fieldStart (sep key : CString) : CString := sep ++ (Json.quote key ++ cstr ": ")

theorem objectText_cons (sep key : CString) (j : Json) (fields : List (CString × Json)) :
    Json.objectText printF sep ((key, j) :: fields) = fieldStart sep key ++
      (Json.toJsonString printF j ++ Json.objectText printF (cstr ", ") fields) := by
  rw [Json.objectText, fieldStart, List.append_assoc, List.append_assoc]

theorem mem_typeList {this : Typeset} {c : Byte} (h : c ∈ typeList this) :
    c = 44 ∨ isdigit c = true := by
  by_cases hne : this.members = []
  · rw [typeList, hne] at h
    exact absurd h List.not_mem_nil
  · have hprinted : c ∈ printed this.members := by
      rw [printed_eq hne]
      exact List.mem_append_left _ h
    obtain ⟨i, -, hi⟩ := List.mem_flatMap.mp hprinted
    rcases List.mem_append.mp hi with hi | hi
    · exact Or.inr (isdigit_printNat c hi)
    · exact Or.inl (List.mem_singleton.mp hi)

theorem escapeByte_of_isdigit {c : Byte} (h : isdigit c = true) : Json.escapeByte c = [c] := by
  have hbounds : 48 ≤ c.toNat ∧ c.toNat ≤ 57 := of_decide_eq_true h
  have hne (d : Byte) (hd : isdigit d = false) : c ≠ d := by
    rintro rfl
    exact Bool.false_ne_true (hd.symm.trans h)
  exact escapeByte_of_ne (by omega) (hne _ rfl) (hne _ rfl) (hne _ rfl)

theorem escapeByte_typeList (this : Typeset) : ∀ c ∈ typeList this, Json.escapeByte c = [c] := by
  intro c hc
  rcases mem_typeList hc with rfl | hdigit
  · decide
  · exact escapeByte_of_isdigit hdigit

theorem length_typeList (this : Typeset) : (typeList this).length = 5 * this.count - 1 := by
  by_cases hne : this.members = []
  · have hcount : this.count = 0 := by rw [← length_members, hne, List.length_nil]
    rw [typeList, hne, hcount]
    rfl
  · have hlength := length_printed fun i (hi : i ∈ this.members) =>
      tracked_of_check (mem_members.mp hi)
    rw [printed_eq hne, List.length_append, List.length_singleton, length_members] at hlength
    rw [typeList]
    omega

theorem objectText_navSystem {navSystem : Option CString}
    (hnav : ∀ nav ∈ navSystem, ∀ c ∈ nav, Json.escapeByte c = [c])
    (fields : List (CString × Json)) :
    Json.objectText printF (cstr ", ")
        ((navSystem.toList.map fun nav => (cstr "nav_system", .string nav)) ++ fields) =
      (navSystem.toList.map fun nav =>
        cstr ", \"nav_system\": \"" ++ (nav ++ cstr "\"")).flatten ++
        Json.objectText printF (cstr ", ") fields := by
  have hstart : fieldStart (cstr ", ") (cstr "nav_system") ++ [0x22] =
      cstr ", \"nav_system\": \"" := by decide
  cases navSystem with
  | none => rfl
  | some nav =>
    rw [Option.toList_some, List.map_singleton, List.map_singleton, List.flatten_singleton,
      List.singleton_append, objectText_cons, Json.toJsonString, quote_of_forall (hnav nav rfl),
      ← hstart, ← List.singleton_append (x := 0x22)]
    simp only [List.append_assoc]
    rfl

theorem objectText_pos (pos : Option (Pos ℚ)) :
    Json.objectText printF (cstr ", ") (pos.toList.flatMap fun pos =>
        [(cstr "lat", .double pos.lat), (cstr "lon", .double pos.lon)]) =
      (pos.toList.map fun pos => cstr ", \"lat\": " ++ (printF pos.lat ++
        (cstr ", \"lon\": " ++ printF pos.lon))).flatten := by
  have hlat : fieldStart (cstr ", ") (cstr "lat") = cstr ", \"lat\": " := by decide
  have hlon : fieldStart (cstr ", ") (cstr "lon") = cstr ", \"lon\": " := by decide
  cases pos with
  | none => rfl
  | some pos =>
    rw [Option.toList_some, List.map_singleton, List.flatMap_singleton, List.flatten_singleton,
      objectText_cons, objectText_cons, hlat, hlon, Json.objectText, List.append_nil]
    rfl

/-- **The calls print the text of the object**, and a newline after it. -/
theorem flatten_detectedTexts (this : Typeset) {navSystem : Option CString}
    (hnav : ∀ nav ∈ navSystem, ∀ c ∈ nav, Json.escapeByte c = [c]) (pos : Option (Pos ℚ)) :
    (detectedTexts (typeList this) navSystem pos).flatten =
      bracedText (detectedObject this navSystem pos) ++ [LF] := by
  have hstart : cstr "\x7b" ++ (fieldStart [] (cstr "result") ++ (Json.printInt 0 ++
      (fieldStart (cstr ", ") (cstr "types") ++ [0x22]))) =
        cstr "\x7b\"result\": 0, \"types\": \"" := by decide
  have hend : cstr "\x7d\n" = cstr "\x7d" ++ [LF] := by decide
  rw [detectedTexts, bracedText, detectedObject, objectText_cons, objectText_cons,
    objectText_navSystem hnav, objectText_pos, Json.toJsonString, Json.toJsonString,
    quote_of_forall (escapeByte_typeList this), List.flatten_cons, List.flatten_append,
    List.flatten_append, List.flatten_singleton, ← hstart, hend]
  simp only [List.append_assoc, List.cons_append, List.nil_append]
  rfl

/-- The bytes that the text of the navigation systems takes. -/
def Systems.room (this : Systems) : ℕ := this.navSystem.elim 0 fun nav => nav.length + 18

/-- The bytes that the text of the position takes. -/
def posRoom (pos : Option (Pos ℚ)) : ℕ :=
  pos.elim 0 fun pos => (printF pos.lat).length + (printF pos.lon).length + 18

theorem length_detectedTexts (this : Typeset) (systems : Systems) (pos : Option (Pos ℚ)) :
    (detectedTexts (typeList this) systems.navSystem pos).flatten.length =
      5 * this.count - 1 + systems.room + posRoom pos + 27 := by
  have hnav : (systems.navSystem.toList.map fun nav =>
      cstr ", \"nav_system\": \"" ++ (nav ++ cstr "\"")).flatten.length = systems.room := by
    rw [Systems.room]
    cases systems.navSystem with
    | none => rfl
    | some nav =>
      have hstart : (cstr ", \"nav_system\": \"").length = 17 := by decide
      rw [Option.toList_some, List.map_singleton, List.flatten_singleton, List.length_append,
        List.length_append, hstart, Option.elim_some]
      exact Nat.add_comm 17 (nav.length + 1)
  have hpos : (pos.toList.map fun pos => cstr ", \"lat\": " ++ (printF pos.lat ++
      (cstr ", \"lon\": " ++ printF pos.lon))).flatten.length = posRoom pos := by
    rw [posRoom]
    cases pos with
    | none => rfl
    | some pos =>
      have hlat : (cstr ", \"lat\": ").length = 9 := by decide
      have hlon : (cstr ", \"lon\": ").length = 9 := by decide
      rw [Option.toList_some, List.map_singleton, List.flatten_singleton, List.length_append,
        List.length_append, List.length_append, hlat, hlon, Option.elim_some]
      omega
  have hstart : (cstr "\x7b\"result\": 0, \"types\": \"").length = 24 := by decide
  have hquote : (cstr "\"").length = 1 := by decide
  have hend : (cstr "\x7d\n").length = 2 := by decide
  rw [detectedTexts, List.flatten_cons, List.flatten_append, List.flatten_append,
    List.flatten_singleton, List.length_append, List.length_append, List.length_append,
    List.length_append, List.length_append, hnav, hpos, hstart, hquote, hend, length_typeList]
  omega

theorem nul_not_mem_printF (x : ℚ) : (0 : Byte) ∉ printF x := by
  intro h
  rw [printF] at h
  rcases List.mem_append.mp h with h | h
  · split at h
    · exact absurd (List.mem_singleton.mp h) (by decide)
    · exact List.not_mem_nil h
  · rcases List.mem_append.mp h with h | h
    · exact absurd (isdigit_printNat 0 h) (by decide)
    · rcases List.mem_cons.mp h with h | h
      · exact absurd h (by decide)
      · exact absurd (IsoDate.isdigit_pad 0 h) (by decide)

theorem mem_names_of_mem_navSystem {systems : Systems} {nav : CString}
    (h : nav ∈ systems.navSystem) {c : Byte} (hc : c ∈ nav) : c ∈ systems.names.flatten := by
  rw [Systems.navSystem] at h
  split at h
  · contradiction
  · obtain rfl := Option.some.inj h
    exact List.dropLast_subset _ hc

theorem nul_not_mem_detectedTexts (this : Typeset) (systems : Systems) (pos : Option (Pos ℚ)) :
    (0 : Byte) ∉ (detectedTexts (typeList this) systems.navSystem pos).flatten := by
  intro h
  have hconst : (0 : Byte) ∉ cstr "\x7b\"result\": 0, \"types\": \"" ∧
      (0 : Byte) ∉ cstr "\"" ∧ (0 : Byte) ∉ cstr ", \"nav_system\": \"" ∧
      (0 : Byte) ∉ cstr ", \"lat\": " ∧ (0 : Byte) ∉ cstr ", \"lon\": " ∧
      (0 : Byte) ∉ cstr "\x7d\n" := by decide
  obtain ⟨hstart, hquote, hnav, hlat, hlon, hend⟩ := hconst
  obtain ⟨text, htext, h⟩ := List.mem_flatten.mp h
  rw [detectedTexts, List.mem_cons, List.mem_append, List.mem_append, List.mem_singleton] at htext
  rcases htext with rfl | htext | htext | rfl
  · rcases List.mem_append.mp h with h | h
    · exact hstart h
    · exact (List.mem_append.mp h).elim (nul_not_mem_typeList this) hquote
  · obtain ⟨nav, hsome, rfl⟩ := List.mem_map.mp htext
    rcases List.mem_append.mp h with h | h
    · exact hnav h
    · rcases List.mem_append.mp h with h | h
      · have hmem := mem_names_of_mem_navSystem (Option.mem_toList.mp hsome) h
        exact (systems.escapeByte_names 0 hmem).2 rfl
      · exact hquote h
  · obtain ⟨p, -, rfl⟩ := List.mem_map.mp htext
    rcases List.mem_append.mp h with h | h
    · exact hlat h
    · rcases List.mem_append.mp h with h | h
      · exact nul_not_mem_printF _ h
      · exact (List.mem_append.mp h).elim hlon (nul_not_mem_printF _)
  · exact hend h

/-! ### The answer that fits -/

/-- Where nothing is written out of the buffer, the answer is what there is room for. -/
theorem detectedReply_eq (result : Vector Byte 400) (this : Typeset) (systems : Systems)
    (pos : Option (Pos ℚ)) :
    ((detectedTexts (typeList this) systems.navSystem pos).flatten.length ≤ 400 →
      ∃ reply, detectedReply result (typeList this) systems.navSystem pos = some reply) ∧
    ∀ reply, detectedReply result (typeList this) systems.navSystem pos = some reply →
      reply = (detectedTexts (typeList this) systems.navSystem pos).flatten.take 399 := by
  have hnul := nul_not_mem_detectedTexts this systems pos
  have hbound : 400 < 2 ^ 64 := by decide
  have hresult : result.toList.length = 400 := result.length_toList
  rw [detectedReply]
  cases htexts : detectedTexts (typeList this) systems.navSystem pos with
  | nil => rw [detectedTexts] at htexts; contradiction
  | cons s l =>
    obtain ⟨st, hst, hprinted⟩ := exists_printNext_zero hbound (by decide) hresult s
    obtain ⟨hroom, hrun⟩ := hprinted.run hbound l
    rw [htexts, List.flatten_cons] at hnul
    rw [List.foldlM_cons, hst, Option.bind_eq_bind, Option.bind_some, List.flatten_cons]
    constructor
    · intro hle
      obtain ⟨st', hst'⟩ := hroom hle
      exact ⟨_, congrArg (Option.map _) hst'⟩
    · intro reply hreply
      obtain ⟨st', hst', rfl⟩ := Option.map_eq_some_iff.mp hreply
      obtain ⟨-, -, tail, htail⟩ := hrun st' hst'
      rw [htail, toCString_append_nul fun h => hnul (List.mem_of_mem_take h)]

theorem length_bracedText (this : Typeset) (systems : Systems) (pos : Option (Pos ℚ)) :
    (bracedText (detectedObject this systems.navSystem pos)).length =
      5 * this.count - 1 + systems.room + posRoom pos + 26 := by
  have hnav : ∀ nav ∈ systems.navSystem, ∀ c ∈ nav, Json.escapeByte c = [c] :=
    fun nav h c hc => (systems.escapeByte_names c (mem_names_of_mem_navSystem h hc)).1
  have hlength := length_detectedTexts this systems pos
  rw [flatten_detectedTexts this hnav pos, List.length_append, List.length_singleton] at hlength
  exact Nat.succ.inj hlength

theorem toCString_rtcmTypesetStr {this : Typeset} {r r' : List Byte}
    (hr : r.length = this.count * 5 + 1) (h : rtcmTypesetStr this r = some r') :
    toCString r' = typeList this := by
  obtain ⟨rest, hstr, -⟩ := rtcmTypesetStr_eq this hr
  obtain rfl := Option.some.inj (hstr.symm.trans h)
  exact toCString_append_nul (nul_not_mem_typeList this) rest

/-- An answer that is complete is not longer than the buffer. -/
theorem room_of_detectedInFull {malloc : (n : ℕ) → Vector Byte n} {this : Typeset}
    {systems : Systems} {pos : Option (Pos ℚ)} (h : DetectedInFull malloc this systems pos) :
    5 * this.count - 1 + systems.room + posRoom pos ≤ 373 := by
  obtain ⟨r, navSystem, reply, hr, hsystems, hdetected, space, -, hspace⟩ := h
  obtain rfl := Option.some.inj ((systems.str_eq (malloc 32)).symm.trans hsystems)
  rw [toCString_rtcmTypesetStr (malloc _).length_toList hr] at hdetected
  have hreply := (detectedReply_eq (malloc 400) this systems pos).2 reply hdetected
  have hlength := congrArg List.length (hreply.symm.trans hspace)
  rw [List.length_take, List.length_append, length_bracedText] at hlength
  omega

/-- **When the answer fits.** The types, the systems and the position take no more room than the
rest of the text leaves them. -/
theorem detectedInFull_iff (malloc : (n : ℕ) → Vector Byte n) (this : Typeset) (systems : Systems)
    (pos : Option (Pos ℚ)) :
    DetectedInFull malloc this systems pos ↔
      5 * this.count - 1 + systems.room + posRoom pos ≤ 373 := by
  refine ⟨room_of_detectedInFull, fun hle => ?_⟩
  obtain ⟨rest, hstr, -⟩ := rtcmTypesetStr_eq this (malloc (this.count * 5 + 1)).length_toList
  have hnav : ∀ nav ∈ systems.navSystem, ∀ c ∈ nav, Json.escapeByte c = [c] :=
    fun nav h c hc => (systems.escapeByte_names c (mem_names_of_mem_navSystem h hc)).1
  have hbraced := length_bracedText this systems pos
  obtain ⟨hroom, hreply⟩ := detectedReply_eq (malloc 400) this systems pos
  obtain ⟨reply, hdetected⟩ := hroom (by rw [length_detectedTexts]; omega)
  refine ⟨_, _, reply, hstr, systems.str_eq (malloc 32), ?_,
    [LF].take (399 - (bracedText (detectedObject this systems.navSystem pos)).length),
    fun c hc => ?_, ?_⟩
  · rw [toCString_append_nul (nul_not_mem_typeList this), hdetected]
  · obtain rfl := List.mem_singleton.mp (List.mem_of_mem_take hc)
    decide
  · rw [hreply reply hdetected, flatten_detectedTexts this hnav pos, List.take_append,
      List.take_of_length_le (by omega)]

/-- The types 4000 to 4095 are seen: the list of them is longer than the buffer. -/
theorem not_detectedInFull_types :
    ¬ DetectedInFull (fun n => Vector.replicate n 0)
      ⟨Vector.replicate 29 0, Vector.replicate 12 255⟩
      ⟨false, false, false, false, false, false⟩ none := by
  intro h
  exact absurd (room_of_detectedInFull h) (by decide +kernel)

/-- **The request.** An answer that is not a message about the request is the one that is printed
for what was received of the source. -/
theorem detectedReply_of_ok {malloc : (n : ℕ) → Vector Byte n}
    {rtcmCache : CString → Option RtcmInfo} {env : FileEnv} {filename : CString}
    {req : SettingsRequest} {files files' : Files} {reply : CString}
    (h : apiDetectSourceJson malloc rtcmCache env filename req files = some (files', .ok reply)) :
    ∃ mountpoint info, removedSource req = .ok mountpoint ∧ rtcmCache mountpoint = some info ∧
      detectedReply (malloc 400) (typeList info.typeset) info.typeset.systems.navSystem
        info.getPos = some reply := by
  rw [apiDetectSourceJson] at h
  cases hmountpoint : removedSource req with
  | error message =>
    rw [hmountpoint] at h
    cases h
  | ok mountpoint =>
    rw [hmountpoint] at h
    cases hinfo : rtcmCache mountpoint with
    | none =>
      simp only [hinfo] at h
      cases h
    | some info =>
      simp only [hinfo] at h
      obtain ⟨r, hr, h⟩ := Option.bind_eq_some_iff.mp h
      rw [Systems.str_eq, Option.bind_eq_bind, Option.bind_some,
        toCString_rtcmTypesetStr (malloc _).length_toList hr] at h
      refine ⟨mountpoint, info, rfl, hinfo, ?_⟩
      split at h
      · cases h
      · split at h
        · cases h
        · obtain ⟨reply', hreply, h⟩ := Option.map_eq_some_iff.mp h
          cases h
          exact hreply

end ChilopodCaster
