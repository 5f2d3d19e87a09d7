import Mathlib.Logic.Function.Basic
import ChilopodCaster.Sourcetable

/-!
# A sourcetable as a text

`sourcetable_get` prints a table for the clients: the header, the source lines sorted by mountpoint,
and a last line, `ENDSOURCETABLE`. The length is computed first, and announced to the client.

A table is made of lines that are added one after the other. What it says is its header and, for
each mountpoint, a line; the text depends on nothing else, so the order in which the source lines
were added plays no part.

## Main definitions

* `HashTable.hashArray` — `hash_array`
* `Sourcetable.get` — `sourcetable_get`
* `Sourcetable.Contents` — what a table says

## Main results

* `Sourcetable.get_eq` — the text is written within its buffer, and its length is the one announced
* `Sourcetable.get_reorder` — the order in which source lines are added plays no part
-/

namespace ChilopodCaster

/-- `strcmp`, less the size of the numbers that it returns. -/
def strcmp : CString → CString → ℤ
  | [], [] => 0
  | [], _ :: _ => -1
  | _ :: _, [] => 1
  | c :: s, d :: t => if c = d then strcmp s t else if c < d then -1 else 1

/-- `strcmp` compares as a dictionary does. -/
theorem strcmp_le_iff (s t : CString) : strcmp s t ≤ 0 ↔ s ≤ t := by
  induction s, t using strcmp.induct with
  | case1 => simp [strcmp]
  | case2 => simp [strcmp]
  | case3 => simp [strcmp]
  | case4 s d t ih => simp [strcmp, ih, List.cons_le_cons_iff]
  | case5 c s d t hne hlt => simp [strcmp, hne, hlt, List.cons_le_cons_iff]
  | case6 c s d t hne hlt => simp [strcmp, hne, hlt, List.cons_le_cons_iff]

/-- `strcat`, and `strcpy` to an empty string; `none` is a write past the end of the buffer, of
`size` bytes. -/
def strcat (size : ℕ) (s t : CString) : Option CString :=
  if s.length + t.length < size then some (s ++ t) else none

namespace HashTable

variable {V : Type}

/-- `hash_array`: the entries, sorted by key. The array has room for `nentries` of them, which is
what `counted` says they are. -/
def hashArray (this : HashTable V) : List (CString × V) :=
  this.elements.mergeSort fun k₁ k₂ => strcmp k₁.1 k₂.1 ≤ 0

theorem hashArray_perm (this : HashTable V) : this.hashArray.Perm this.elements :=
  List.mergeSort_perm _ _

theorem pairwise_hashArray (this : HashTable V) :
    this.hashArray.Pairwise fun k₁ k₂ => k₁.1 ≤ k₂.1 := by
  refine (List.pairwise_mergeSort ?_ ?_ this.elements).imp fun h => ?_
  · intro e₁ e₂ e₃ h h'
    rw [decide_eq_true_iff, strcmp_le_iff] at *
    exact List.le_trans h h'
  · intro e₁ e₂
    rw [Bool.or_eq_true, decide_eq_true_iff, decide_eq_true_iff, strcmp_le_iff, strcmp_le_iff]
    exact List.le_total e₁.1 e₂.1
  · rwa [decide_eq_true_iff, strcmp_le_iff] at h

end HashTable

/-! ### Parsing a line for any table -/

namespace Sourceline

variable {F : Type}

/-- The parser copies what it is told of the table. -/
theorem newParse_eq_map (scanFloat : CString → Option F) (entry caster : CString) (port : BitVec 16)
    (tls onDemand : Bool) :
    newParse scanFloat entry caster port tls onDemand =
      (newParse scanFloat entry [] 0 false false).map fun s =>
        { s with onDemand := onDemand, host := caster, port := port, tls := tls } := by
  simp only [newParse]
  split
  · rfl
  · split
    · rfl
    · split
      · rfl
      · cases scanFloat ((entry.splitOn semicolon).getD 9 []) with
        | none => rfl
        | some lat =>
          cases scanFloat ((entry.splitOn semicolon).getD 10 []) with
          | none => rfl
          | some lon => rfl

/-- The line is kept as it is. -/
theorem value_of_newParse {scanFloat : CString → Option F} {entry caster : CString}
    {port : BitVec 16} {tls onDemand : Bool} {s : Sourceline F}
    (h : newParse scanFloat entry caster port tls onDemand = some s) : s.value = entry := by
  simp only [newParse, Option.bind_eq_bind] at h
  split at h
  · contradiction
  · split at h
    · contradiction
    · split at h
      · contradiction
      · obtain ⟨lat, -, h⟩ := Option.bind_eq_some_iff.mp h
        obtain ⟨lon, -, h⟩ := Option.bind_eq_some_iff.mp h
        obtain rfl := Option.some.inj h
        rfl

/-- The mountpoint of a source line, if it can be parsed. -/
def mountpoint (scanFloat : CString → Option F) (entry : CString) : Option CString :=
  (newParse scanFloat entry [] 0 false false).map (·.key)

end Sourceline

namespace Sourcetable

variable {F : Type}

/-! ### The text -/

/-- The last line of a table. -/
def endMark : CString := cstr "ENDSOURCETABLE"

/-- One round of the loop of `sourcetable_get`: a line and its end. -/
def catLine (size : ℕ) (s line : CString) : Option CString :=
  (strcat size s line).bind fun s => strcat size s crlf

/-- `sourcetable_get`, with the length handed to `mime_new`; `none` is a write past the end of the
string. -/
def get (this : Sourcetable F) : Option (CString × ℕ) := do
  let len := this.keyVal.elements.foldl (fun len e => len + (e.2.value.length + 2))
    (this.header.length + 17)
  let s ← strcat len [] this.header
  let s ← this.keyVal.hashArray.foldlM (fun s e => catLine len s e.2.value) s
  let s ← strcat len s (endMark ++ crlf)
  return (s, len - 1)

/-- Lines, each one ended by CR LF. -/
def joinLines (lines : List CString) : CString := lines.flatMap (· ++ crlf)

theorem joinLines_append (lines lines' : List CString) :
    joinLines (lines ++ lines') = joinLines lines ++ joinLines lines' := List.flatMap_append

theorem joinLines_singleton (line : CString) : joinLines [line] = line ++ crlf := by
  rw [joinLines, List.flatMap_singleton]

/-- The source lines in the order of the text. -/
def values (this : Sourcetable F) : List CString := this.keyVal.hashArray.map (·.2.value)

/-- The text. -/
def text (this : Sourcetable F) : CString :=
  this.header ++ joinLines this.values ++ (endMark ++ crlf)

theorem foldlM_strcat {size : ℕ} {es : List (CString × Sourceline F)} {s : CString}
    (h : s.length + (joinLines (es.map (·.2.value))).length < size) :
    es.foldlM (fun s e => catLine size s e.2.value) s =
      some (s ++ joinLines (es.map (·.2.value))) := by
  induction es generalizing s with
  | nil => exact congrArg some (List.append_nil s).symm
  | cons e es ih =>
    have hcons : joinLines ((e :: es).map (·.2.value)) =
        e.2.value ++ crlf ++ joinLines (es.map (·.2.value)) := rfl
    rw [hcons, List.length_append, List.length_append] at h
    have hvalue : strcat size s e.2.value = some (s ++ e.2.value) := if_pos (by omega)
    have hcrlf : strcat size (s ++ e.2.value) crlf = some (s ++ e.2.value ++ crlf) := by
      refine if_pos ?_
      rw [List.length_append]
      omega
    have hline : catLine size s e.2.value = some (s ++ e.2.value ++ crlf) := by
      rw [catLine, hvalue, Option.bind_some, hcrlf]
    rw [List.foldlM_cons, hline, Option.bind_eq_bind, Option.bind_some, ih, hcons]
    · simp only [List.append_assoc]
    · rw [List.length_append, List.length_append]
      omega

theorem foldl_length (es : List (CString × Sourceline F)) (n : ℕ) :
    es.foldl (fun len e => len + (e.2.value.length + 2)) n =
      n + (joinLines (es.map (·.2.value))).length := by
  induction es generalizing n with
  | nil => rfl
  | cons e es ih =>
    rw [List.foldl_cons, ih, List.map_cons, ← List.singleton_append, joinLines_append,
      joinLines_singleton, List.length_append, List.length_append]
    exact Nat.add_assoc ..

/-- **The text is written within its buffer, and its length is the one announced.** -/
theorem get_eq (this : Sourcetable F) : this.get = some (this.text, this.text.length) := by
  have hperm : (joinLines (this.keyVal.elements.map (·.2.value))).length =
      (joinLines this.values).length :=
    ((this.keyVal.hashArray_perm.symm.map _).flatMap_right _).length_eq
  have hlen : this.text.length = this.header.length + (joinLines this.values).length + 16 := by
    rw [text, List.length_append, List.length_append]
    rfl
  have hheader : strcat (this.header.length + 17 + (joinLines this.values).length) []
      this.header = some this.header := if_pos (by rw [List.length_nil]; omega)
  have hend : strcat (this.header.length + 17 + (joinLines this.values).length)
      (this.header ++ joinLines this.values) (endMark ++ crlf) = some this.text := by
    refine if_pos ?_
    have hmark : (endMark ++ crlf).length = 16 := rfl
    rw [List.length_append, hmark]
    omega
  rw [get, foldl_length, hperm]
  simp only [Option.bind_eq_bind]
  rw [hheader, Option.bind_some, foldlM_strcat (by rw [← values]; omega), ← values,
    Option.bind_some, hend, Option.bind_some, hlen]
  have hsub : this.header.length + 17 + (joinLines this.values).length - 1 =
      this.header.length + (joinLines this.values).length + 16 := by omega
  rw [hsub]
  rfl

/-! ### What a table says -/

/-- What a table says: the header, and the line of each mountpoint. -/
@[ext]
structure Contents where
  header : CString
  line : CString → Option CString

/-- A line that is not a source line. -/
def isHeader (entry : CString) : Bool := entry.take 4 ≠ Sourceline.strMark

namespace Contents

/-- Of an empty table. -/
def empty : Contents := ⟨[], fun _ => none⟩

/-- A source line, at a mountpoint that has none. -/
def addLine (this : Contents) (entry key : CString) : Option Contents :=
  if this.line key = none then
    some { this with line := Function.update this.line key (some entry) }
  else none

def add (scanFloat : CString → Option F) (this : Contents) (entry : CString) : Option Contents :=
  if isHeader entry then some { this with header := this.header ++ entry ++ crlf }
  else (Sourceline.mountpoint scanFloat entry).bind (this.addLine entry)

theorem addLine_comm (this : Contents) (e₁ e₂ k₁ k₂ : CString) :
    ((this.addLine e₁ k₁).bind fun c => c.addLine e₂ k₂) =
      (this.addLine e₂ k₂).bind fun c => c.addLine e₁ k₁ := by
  simp only [addLine]
  by_cases hk : k₁ = k₂
  · subst hk
    by_cases h : this.line k₁ = none
    · simp [h]
    · simp [h]
  · by_cases h₁ : this.line k₁ = none
    · by_cases h₂ : this.line k₂ = none
      · simp [h₁, h₂, hk, Ne.symm hk, Function.update_comm hk]
      · simp [h₁, h₂, Ne.symm hk]
    · by_cases h₂ : this.line k₂ = none
      · simp [h₁, h₂, hk]
      · simp [h₁, h₂]

/-- A source line commutes with any line. -/
theorem add_comm (scanFloat : CString → Option F) {e₁ : CString} (e₂ : CString)
    (h₁ : isHeader e₁ = false) (this : Contents) :
    ((this.add scanFloat e₁).bind fun c => c.add scanFloat e₂) =
      (this.add scanFloat e₂).bind fun c => c.add scanFloat e₁ := by
  simp only [add, h₁, Bool.false_eq_true, if_false]
  cases Sourceline.mountpoint scanFloat e₁ with
  | none =>
    rw [Option.bind_none, Option.bind_none]
    exact (Option.bind_fun_none _).symm
  | some k₁ =>
    rw [Option.bind_some]
    by_cases h₂ : isHeader e₂ = true
    · simp only [h₂, if_true, Option.bind_some, addLine]
      split <;> rfl
    · simp only [h₂]
      cases Sourceline.mountpoint scanFloat e₂ with
      | none => exact Option.bind_fun_none _
      | some k₂ => exact this.addLine_comm e₁ e₂ k₁ k₂

end Contents

/-- What the table says. -/
def contents (this : Sourcetable F) : Contents where
  header := this.header
  line key := (this.keyVal.get key).map (·.value)

variable {scanFloat : CString → Option F} {this that : Sourcetable F}

theorem contents_addDirect (this : Sourcetable F) (s : Sourceline F) :
    (this.addDirect s).map contents = this.contents.addLine s.value s.key := by
  rw [Contents.addLine]
  cases hget : this.keyVal.get s.key with
  | some line =>
    have hnone : this.addDirect s = none := by
      rw [addDirect]
      split
      · rfl
      · next hadd => rw [HashTable.get_eq_none_of_add hadd] at hget; contradiction
    have hline : this.contents.line s.key = some line.value := congrArg (Option.map _) hget
    rw [hnone, if_neg (by rw [hline]; exact Option.some_ne_none _), Option.map_none]
  | none =>
    obtain ⟨that, hthat⟩ := exists_addDirect hget
    have hline : this.contents.line s.key = none := congrArg (Option.map _) hget
    rw [hthat, if_pos hline, Option.map_some]
    rw [addDirect] at hthat
    split at hthat
    · contradiction
    · next keyVal hadd =>
      obtain rfl := Option.some.inj hthat
      refine congrArg some (Contents.ext rfl (funext fun key => ?_))
      dsimp only [contents]
      rw [HashTable.get_add hadd, Function.update_apply]
      split <;> rfl

/-- **What an added line does to what the table says.** -/
theorem contents_addUnlocked (scanFloat : CString → Option F) (this : Sourcetable F)
    (entry : CString) (onDemand : Bool) :
    (this.addUnlocked scanFloat entry onDemand).map contents =
      this.contents.add scanFloat entry := by
  rw [addUnlocked, Contents.add, isHeader, decide_not]
  by_cases hstr : entry.take 4 = Sourceline.strMark
  · rw [if_pos hstr, decide_eq_true hstr, Sourceline.newParse_eq_map, Sourceline.mountpoint]
    cases hparse : Sourceline.newParse scanFloat entry [] 0 false false with
    | none => rfl
    | some s =>
      rw [← Sourceline.value_of_newParse hparse]
      exact contents_addDirect this _
  · rw [if_neg hstr, decide_eq_false hstr]
    rfl

/-! ### The text depends on what the table says -/

/-- The mountpoints and their lines, in the order of the text. -/
def sortedLines (this : Sourcetable F) : List (CString × CString) :=
  this.keyVal.hashArray.map fun e => (e.1, e.2.value)

theorem mem_sortedLines {key line : CString} :
    (key, line) ∈ this.sortedLines ↔ this.contents.line key = some line := by
  rw [sortedLines, List.mem_map, contents, Option.map_eq_some_iff]
  constructor
  · rintro ⟨⟨k, s⟩, hmem, heq⟩
    obtain ⟨rfl, rfl⟩ := Prod.mk.inj heq
    exact ⟨s, (this.keyVal.mem_elements).mp (this.keyVal.hashArray_perm.subset hmem), rfl⟩
  · rintro ⟨s, hget, rfl⟩
    exact ⟨(key, s), this.keyVal.hashArray_perm.symm.subset (this.keyVal.mem_elements.mpr hget),
      rfl⟩

theorem nodup_sortedLines (this : Sourcetable F) : this.sortedLines.Nodup := by
  refine List.Nodup.of_map Prod.fst ?_
  rw [sortedLines, List.map_map]
  exact (this.keyVal.hashArray_perm.map Prod.fst).nodup_iff.mpr this.keyVal.nodup_elements

theorem sortedLines_congr (h : this.contents = that.contents) :
    this.sortedLines = that.sortedLines := by
  have hmem (e : CString × CString) : e ∈ this.sortedLines ↔ e ∈ that.sortedLines := by
    rw [mem_sortedLines, mem_sortedLines, h]
  have hsorted (t : Sourcetable F) : t.sortedLines.Pairwise fun e₁ e₂ => e₁.1 ≤ e₂.1 :=
    List.pairwise_map.mpr t.keyVal.pairwise_hashArray
  refine List.Perm.eq_of_pairwise ?_ (hsorted this) (hsorted that)
    ((List.perm_ext_iff_of_nodup this.nodup_sortedLines that.nodup_sortedLines).mpr hmem)
  rintro ⟨k₁, l₁⟩ ⟨k₂, l₂⟩ h₁ h₂ hle hle'
  obtain rfl : k₁ = k₂ := List.le_antisymm hle hle'
  have hl := (mem_sortedLines.mp ((hmem _).mp h₁)).symm.trans (mem_sortedLines.mp h₂)
  rw [Option.some.inj hl]

theorem values_eq_map (this : Sourcetable F) : this.values = this.sortedLines.map Prod.snd := by
  rw [values, sortedLines, List.map_map]
  rfl

/-- **The text depends only on what the table says.** -/
theorem get_congr (h : this.contents = that.contents) : this.get = that.get := by
  have hheader : this.header = that.header := congrArg Contents.header h
  have htext : this.text = that.text := by
    rw [text, text, hheader, values_eq_map, values_eq_map, sortedLines_congr h]
  rw [get_eq, get_eq, htext]

/-! ### The order of the source lines -/

/-- Lines are added one after the other, by `sourcetable_add`. -/
def addAll (scanFloat : CString → Option F) (this : Sourcetable F)
    (entries : List (CString × Bool)) : Option (Sourcetable F) :=
  entries.foldlM (fun this e => this.addUnlocked scanFloat e.1 e.2) this

/-- Two lists with the same lines, which differ only in the place of the lines that are not
marked. -/
def Reordered {α : Type} (p : α → Bool) (entries entries' : List α) : Prop :=
  entries.Perm entries' ∧ entries.filter p = entries'.filter p

/-- The text is the same if what the table says is. -/
theorem get_of_map_contents {o o' : Option (Sourcetable F)} (h : o.map contents = o'.map contents)
    (ho : o = some this) : ∃ that, o' = some that ∧ that.get = this.get := by
  rw [ho, Option.map_some] at h
  obtain ⟨that, hthat, hcontents⟩ := Option.map_eq_some_iff.mp h.symm
  exact ⟨that, hthat, get_congr hcontents⟩

/-- **The order in which source lines are added plays no part**: they are all added again, and the
text is the same. -/
theorem get_reorder {start : Sourcetable F} {entries entries' : List (CString × Bool)}
    (hr : Reordered (fun e => isHeader e.1) entries entries')
    (h : start.addAll scanFloat entries = some this) :
    ∃ that, start.addAll scanFloat entries' = some that ∧ that.get = this.get := by
  have hmap (l : List (CString × Bool)) : (start.addAll scanFloat l).map contents =
      l.foldlM (fun c e => c.add scanFloat e.1) start.contents :=
    Fold.map_foldlM (fun t e => contents_addUnlocked scanFloat t e.1 e.2) l start
  refine get_of_map_contents ?_ h
  rw [hmap, hmap]
  exact Fold.foldlM_reorder (fun a c ha b => Contents.add_comm scanFloat c.1 ha b) hr.1 hr.2 _

/-- One line of a file, on what the table says. -/
def Contents.readLine (scanFloat : CString → Option F) (this : Contents) (line : List Byte) :
    Option Contents :=
  let text := line.takeWhile (· ≠ 0)
  if line = [] then some this
  else if (text.dropWhile isspace).head? = some 0x23 then some this
  else this.add scanFloat text

theorem contents_readLine (scanFloat : CString → Option F) (this : Sourcetable F)
    (line : List Byte) :
    (readLine scanFloat this line).map contents = this.contents.readLine scanFloat line := by
  simp only [readLine, Contents.readLine]
  split
  · rfl
  · split
    · rfl
    · exact contents_addUnlocked scanFloat this _ false

theorem Contents.readLine_of_str {line : List Byte}
    (h : isHeader (line.takeWhile (· ≠ 0)) = false) (this : Contents) :
    this.readLine scanFloat line = this.add scanFloat (line.takeWhile (· ≠ 0)) := by
  have hstr : (line.takeWhile (· ≠ 0)).take 4 = Sourceline.strMark := by
    simpa [isHeader] using h
  obtain ⟨rest, hrest⟩ : ∃ rest, line.takeWhile (· ≠ 0) = 0x53 :: rest := by
    refine ⟨cstr "TR;" ++ (line.takeWhile (· ≠ 0)).drop 4, ?_⟩
    rw [← List.take_append_drop 4 (line.takeWhile (· ≠ 0)), hstr]
    rfl
  have hne : line ≠ [] := by
    rintro rfl
    contradiction
  simp only [readLine]
  rw [if_neg hne, if_neg]
  rw [hrest, List.dropWhile_cons_of_neg (by decide), List.head?_cons]
  decide

/-- **The order of the source lines in a file plays no part.** -/
theorem read_reorder {filename : CString} {content content' : List Byte} {priority : ℤ}
    (hr : Reordered (fun line => isHeader (line.takeWhile (· ≠ 0))) (fileLines content)
      (fileLines content'))
    (h : read scanFloat filename content priority = some this) :
    ∃ that, read scanFloat filename content' priority = some that ∧ that.get = this.get := by
  refine get_of_map_contents ?_ h
  simp only [read]
  rw [Fold.map_foldlM (contents_readLine scanFloat), Fold.map_foldlM (contents_readLine scanFloat)]
  refine Fold.foldlM_reorder (fun a c ha b => ?_) hr.1 hr.2 _
  simp only [Contents.readLine_of_str ha]
  simp only [Contents.readLine]
  split
  · exact Option.bind_fun_some _
  · split
    · exact Option.bind_fun_some _
    · exact Contents.add_comm scanFloat _ ha b

end Sourcetable

end ChilopodCaster
