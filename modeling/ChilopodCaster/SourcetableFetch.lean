import ChilopodCaster.SourcetableText
import ChilopodCaster.SourcetableStack
import ChilopodCaster.Lib.Lines

/-!
# A sourcetable is fetched

A fetcher receives the text of another caster's table line by line. `sourcetable_line_cb` adds each
line to a new table; at the line `ENDSOURCETABLE`, it puts the table into the stack.

`sourcetable_get` ends the text by that line, but the lines of the header come before it and may be
anything. A file saved from another caster has the line `ENDSOURCETABLE` itself, which
`sourcetable_read` takes for a line of the header: the text of such a table ends for the fetcher
before the first source line.

## Main definitions

* `SourcetableFetchArgs.sourcetableLineCb` — `sourcetable_line_cb`
* `Sourcetable.FromLines` — the tables read from a file or made by `sourcetable_add`
* `Sourcetable.SurvivesFetch` — a caster that fetches the text gets the same table

## Main results

* `SourcetableFetchArgs.replaced_feed` — a whole table received is `Sourcetable.fetch`
* `Sourcetable.survivesFetch_iff` — the table survives unless its header has a line `ENDSOURCETABLE`
-/

namespace ChilopodCaster

/-! ### Reading lines -/

theorem evbufferReadlnCrlfStrict_of_not_mem {line : List Byte} (hline : LF ∉ line)
    (rest : List Byte) : evbufferReadlnCrlfStrict (line ++ crlf ++ rest) = some (line, rest) := by
  induction line with
  | nil => rfl
  | cons c line ih =>
    have ih' := ih fun h => hline (List.mem_cons_of_mem c h)
    obtain ⟨d, tl, hd, hne⟩ : ∃ d tl, line ++ crlf ++ rest = d :: tl ∧ d ≠ LF := by
      cases line with
      | nil => exact ⟨CR, LF :: rest, rfl, by decide⟩
      | cons d line =>
        refine ⟨d, line ++ crlf ++ rest, rfl, ?_⟩
        rintro rfl
        exact hline (List.mem_cons_of_mem c List.mem_cons_self)
    rw [List.cons_append, List.cons_append]
    rw [hd] at ih' ⊢
    rw [evbufferReadlnCrlfStrict, if_neg fun h => hne h.2, ih']
    rfl

/-- The lines of a buffer that CR LF ends. -/
def crlfLines (s : List Byte) : List CString :=
  match _h : evbufferReadlnCrlfStrict s with
  | none => []
  | some (line, rest) => line :: crlfLines rest
termination_by s.length
decreasing_by exact length_of_readln_eq_some _h

theorem crlfLines_nil : crlfLines [] = [] := by
  rw [crlfLines]
  rfl

theorem crlfLines_append {line : List Byte} (hline : LF ∉ line) (rest : List Byte) :
    crlfLines (line ++ crlf ++ rest) = line :: crlfLines rest := by
  rw [crlfLines]
  split
  · next h =>
    rw [evbufferReadlnCrlfStrict_of_not_mem hline] at h
    contradiction
  · next h =>
    rw [evbufferReadlnCrlfStrict_of_not_mem hline] at h
    obtain ⟨rfl, rfl⟩ := Prod.mk.inj (Option.some.inj h)
    rfl

namespace Sourcetable

/-- **The lines of a text are those it was made of.** -/
theorem crlfLines_joinLines {lines : List CString} (h : ∀ line ∈ lines, LF ∉ line) :
    crlfLines (joinLines lines) = lines := by
  induction lines with
  | nil => exact crlfLines_nil
  | cons line lines ih =>
    have hcons : joinLines (line :: lines) = line ++ crlf ++ joinLines lines := rfl
    rw [hcons, crlfLines_append (h line List.mem_cons_self),
      ih fun l hl => h l (List.mem_cons_of_mem line hl)]

end Sourcetable

/-! ### The callback -/

/-- `json_get_source_action`: whether the line is kept. `text` is how json-c prints a value that is
not a string. -/
def jsonGetSourceAction (text : Json → CString) (sourcetableLine : CString) (sources : Json) :
    Bool :=
  if sources.isNull then true
  else
    let entry := sourcetableLine.drop 4
    if sourcetableLine.length ≤ 15 ∨ sourcetableLine.take 4 ≠ Sourceline.strMark ∨
        Sourceline.semicolon ∉ entry then true
    else
      let key := entry.takeWhile (· ≠ Sourceline.semicolon)
      let mountpoint := if (sources.objectGet key).isNull then sources.objectGet (cstr "*")
        else sources.objectGet key
      match (mountpoint.objectGet (cstr "action")).getString text with
      | none => true
      | some action => action = cstr "keep"

/-- `struct sourcetable_fetch_args`, as the callback of its task uses it. The last two fields are
not in the source: the tables that were handed to `stack_replace_host`, and the calls of
`sourcetable_end_cb`. -/
structure SourcetableFetchArgs (F : Type) where
  sourcetable : Option (Sourcetable F)
  jsonConfig : Json
  jsonSources : Json
  replaced : List (Sourcetable F)
  ended : List Bool

namespace SourcetableFetchArgs

variable {F : Type}

/-- `fetcher_sourcetable_start`, for a fetcher without a filter. -/
def start (host : CString) (port : BitVec 16) (tls : Bool) (priority : ℤ) :
    SourcetableFetchArgs F where
  sourcetable := some { Sourcetable.new (some host) port tls with priority := priority }
  jsonConfig := .null
  jsonSources := .null
  replaced := []
  ended := []

/-- `sourcetable_end_cb`. -/
def sourcetableEndCb (this : SourcetableFetchArgs F) (ok : Bool) : SourcetableFetchArgs F :=
  { this with
    sourcetable := if ok then this.sourcetable else none
    ended := this.ended ++ [ok] }

/-- `sourcetable_line_cb`, with what it returns; `now` is the time of day. The copy of the table
that is sent to the other nodes is left out. -/
def sourcetableLineCb (scanFloat : CString → Option F) (text : Json → CString) (now : Timeval)
    (this : SourcetableFetchArgs F) (line : CString) : SourcetableFetchArgs F × Bool :=
  match this.sourcetable with
  | none => (this.sourcetableEndCb false, false)
  | some sourcetable =>
    if line = Sourcetable.endMark then
      let sourcetable := { sourcetable with fetchTime := now, pullable := true }
      let this := { this with replaced := this.replaced ++ [sourcetable], sourcetable := none }
      (this.sourcetableEndCb true, true)
    else if this.jsonConfig.isNull = false ∧
        jsonGetSourceAction text line this.jsonSources = false then (this, false)
    else match sourcetable.addUnlocked scanFloat line true with
      | none => ({ this with sourcetable := none }.sourcetableEndCb false, true)
      | some sourcetable => ({ this with sourcetable := some sourcetable }, false)

/-- The lines are fed to the callback. -/
def feed (scanFloat : CString → Option F) (text : Json → CString) (now : Timeval)
    (this : SourcetableFetchArgs F) (lines : List CString) : SourcetableFetchArgs F :=
  lines.foldl (fun this line => (this.sourcetableLineCb scanFloat text now line).1) this

variable {scanFloat : CString → Option F} {text : Json → CString} {now : Timeval}
  {this : SourcetableFetchArgs F} {t : Sourcetable F}

theorem feed_append (this : SourcetableFetchArgs F) (lines lines' : List CString) :
    this.feed scanFloat text now (lines ++ lines') =
      (this.feed scanFloat text now lines).feed scanFloat text now lines' := List.foldl_append

theorem feed_cons (this : SourcetableFetchArgs F) (line : CString) (lines : List CString) :
    this.feed scanFloat text now (line :: lines) =
      (this.sourcetableLineCb scanFloat text now line).1.feed scanFloat text now lines := rfl

/-- The last line. -/
theorem sourcetableLineCb_endMark (h : this.sourcetable = some t) :
    this.sourcetableLineCb scanFloat text now Sourcetable.endMark =
      ({ this with
        sourcetable := none
        replaced := this.replaced ++ [{ t with fetchTime := now, pullable := true }]
        ended := this.ended ++ [true] }, true) := by
  rw [sourcetableLineCb, h]
  dsimp only
  rw [if_pos rfl]
  rfl

/-- Any other line, for a fetcher without a filter. -/
theorem sourcetableLineCb_add (scanFloat : CString → Option F) (text : Json → CString)
    (now : Timeval) {line : CString} (h : this.sourcetable = some t)
    (hjson : this.jsonConfig = .null) (hline : line ≠ Sourcetable.endMark) :
    (this.sourcetableLineCb scanFloat text now line).1 =
      match t.addUnlocked scanFloat line true with
      | none => { this with sourcetable := none, ended := this.ended ++ [false] }
      | some t' => { this with sourcetable := some t' } := by
  rw [sourcetableLineCb, h]
  dsimp only
  rw [if_neg hline, if_neg (by rw [hjson]; simp [Json.isNull])]
  cases t.addUnlocked scanFloat line true <;> rfl

/-- Without a table, nothing is put into the stack any more. -/
theorem replaced_feed_of_none (h : this.sourcetable = none) (lines : List CString) :
    (this.feed scanFloat text now lines).replaced = this.replaced := by
  induction lines generalizing this with
  | nil => rfl
  | cons line lines ih =>
    have hcb : (this.sourcetableLineCb scanFloat text now line).1 =
        this.sourcetableEndCb false := by
      rw [sourcetableLineCb, h]
    rw [feed_cons, hcb, ih rfl]
    rfl

/-- The lines before `ENDSOURCETABLE` are added to the table. -/
theorem feed_of_not_mem {lines : List CString} {t' : Sourcetable F} (h : this.sourcetable = some t)
    (hjson : this.jsonConfig = .null) (hend : Sourcetable.endMark ∉ lines)
    (hadd : lines.foldlM (fun t line => t.addUnlocked scanFloat line true) t = some t') :
    this.feed scanFloat text now lines = { this with sourcetable := some t' } := by
  induction lines generalizing this t with
  | nil =>
    obtain rfl := Option.some.inj hadd
    rw [← h]
    rfl
  | cons line lines ih =>
    rw [List.mem_cons, not_or] at hend
    rw [List.foldlM_cons] at hadd
    obtain ⟨t₁, ht₁, hadd⟩ := Option.bind_eq_some_iff.mp hadd
    have hcb := sourcetableLineCb_add scanFloat text now h hjson (Ne.symm hend.1)
    rw [ht₁] at hcb
    rw [feed_cons, hcb]
    exact ih rfl hjson hend.2 hadd

theorem replaced_feed_of_foldlM_eq_none {lines : List CString} (h : this.sourcetable = some t)
    (hjson : this.jsonConfig = .null) (hend : Sourcetable.endMark ∉ lines)
    (hadd : lines.foldlM (fun t line => t.addUnlocked scanFloat line true) t = none)
    (rest : List CString) :
    (this.feed scanFloat text now (lines ++ rest)).replaced = this.replaced := by
  induction lines generalizing this t with
  | nil => exact absurd hadd (Option.some_ne_none t)
  | cons line lines ih =>
    rw [List.mem_cons, not_or] at hend
    rw [List.foldlM_cons] at hadd
    have hcb := sourcetableLineCb_add scanFloat text now h hjson (Ne.symm hend.1)
    rw [List.cons_append, feed_cons, hcb]
    cases ht₁ : t.addUnlocked scanFloat line true with
    | none => exact replaced_feed_of_none rfl _
    | some t₁ =>
      rw [ht₁] at hadd
      exact ih rfl hjson hend.2 hadd

/-- **A whole table received**: it is put into the stack if all its lines could be added. -/
theorem replaced_feed {lines : List CString} (hend : Sourcetable.endMark ∉ lines) (host : CString)
    (port : BitVec 16) (tls : Bool) (priority : ℤ) :
    ((start host port tls priority).feed scanFloat text now
      (lines ++ [Sourcetable.endMark])).replaced =
        (Sourcetable.fetch scanFloat host port tls priority lines now).toList := by
  rw [Sourcetable.fetch]
  cases hadd : lines.foldlM (fun t line => t.addUnlocked scanFloat line true)
      { Sourcetable.new (some host) port tls with priority := priority } with
  | none =>
    rw [replaced_feed_of_foldlM_eq_none rfl rfl hend hadd]
    rfl
  | some t =>
    rw [feed_append, feed_of_not_mem rfl rfl hend hadd, feed_cons, sourcetableLineCb_endMark rfl]
    rfl

end SourcetableFetchArgs

namespace Sourcetable

variable {F : Type}

/-! ### The tables -/

/-- The tables read from a file, or made by calls of `sourcetable_add` on lines without CR or LF. A
call that fails leaves the table as it was. The other fields may be assigned at any time. -/
inductive FromLines (scanFloat : CString → Option F) : Sourcetable F → Prop
  | read {this : Sourcetable F} {filename : CString} {content : List Byte} {priority : ℤ}
      (h : read scanFloat filename content priority = some this) : FromLines scanFloat this
  | new (host : Option CString) (port : BitVec 16) (tls : Bool) :
      FromLines scanFloat (new host port tls)
  | add {this that : Sourcetable F} {entry : CString} {onDemand : Bool}
      (h : FromLines scanFloat this) (hcr : CR ∉ entry) (hlf : LF ∉ entry)
      (hadd : this.addUnlocked scanFloat entry onDemand = some that) : FromLines scanFloat that
  | assign {this that : Sourcetable F} (h : FromLines scanFloat this)
      (hkey : that.keyVal = this.keyVal) (hheader : that.header = this.header) :
      FromLines scanFloat that

/-- A caster that fetches the table gets the same one, and the text is what it should be. -/
structure SurvivesFetch (scanFloat : CString → Option F) (text : Json → CString)
    (this : Sourcetable F) : Prop where
  /-- The length of the text is the one announced. -/
  announced : ∃ s, this.get = some (s, s.length)
  /-- The order in which `sourcetable_add` has added the source lines plays no part. -/
  ordered : ∀ (start : Sourcetable F) (entries entries' : List (CString × Bool)),
    Reordered (fun e => isHeader e.1) entries entries' →
      start.addAll scanFloat entries = some this →
        ∃ that, start.addAll scanFloat entries' = some that ∧ that.get = this.get
  /-- Nor does that of the source lines of a file. -/
  reread : ∀ (filename : CString) (content content' : List Byte) (priority : ℤ),
    Reordered (fun line => isHeader (line.takeWhile (· ≠ 0))) (fileLines content)
      (fileLines content') → Sourcetable.read scanFloat filename content priority = some this →
        ∃ that, Sourcetable.read scanFloat filename content' priority = some that ∧
          that.get = this.get
  /-- The lines are fed to the callback: at the last one, `ENDSOURCETABLE`, and not before, a table
  is put into the stack, with the same header and the same line for each mountpoint. -/
  fetched : ∀ s n, this.get = some (s, n) → (crlfLines s).getLast? = some endMark ∧
    ∀ (host : CString) (port : BitVec 16) (tls : Bool) (priority : ℤ) (now : Timeval),
      (∀ k < (crlfLines s).length,
        ((SourcetableFetchArgs.start host port tls priority).feed scanFloat text now
          ((crlfLines s).take k)).replaced = []) ∧
      ∃ that : Sourcetable F,
        ((SourcetableFetchArgs.start host port tls priority).feed scanFloat text now
          (crlfLines s)).replaced = [that] ∧
        that.header = this.header ∧
        ∀ key, (that.keyVal.get key).map (·.value) = (this.keyVal.get key).map (·.value)

/-- The table is what the lines make, when they are added to an empty one. -/
structure Added (scanFloat : CString → Option F) (lines : List CString) (this : Sourcetable F) :
    Prop where
  lf : ∀ line ∈ lines, LF ∉ line
  contents : lines.foldlM (Contents.add scanFloat) Contents.empty = some this.contents
  header : this.header = joinLines (lines.filter isHeader)
  values : (this.keyVal.elements.map (·.2.value)).Perm (lines.filter fun line => !isHeader line)

variable {scanFloat : CString → Option F} {text : Json → CString} {this that : Sourcetable F}
  {lines : List CString}

theorem contents_of_empty (hkey : this.keyVal = HashTable.new 509 HashTable.zero_lt_509)
    (hheader : this.header = []) : this.contents = Contents.empty := by
  refine Contents.ext hheader (funext fun key => ?_)
  dsimp only [contents]
  rw [hkey, HashTable.get_new]
  rfl

theorem added_nil (hkey : this.keyVal = HashTable.new 509 HashTable.zero_lt_509)
    (hheader : this.header = []) : this.Added scanFloat [] where
  lf := fun line h => absurd h List.not_mem_nil
  contents := congrArg some (contents_of_empty hkey hheader).symm
  header := hheader
  values := by
    rw [hkey, HashTable.elements_new]
    exact .refl _

/-- **One more line.** -/
theorem Added.addUnlocked {entry : CString} {onDemand : Bool} (h : this.Added scanFloat lines)
    (hlf : LF ∉ entry) (hadd : this.addUnlocked scanFloat entry onDemand = some that) :
    that.Added scanFloat (lines ++ [entry]) := by
  have hc : this.contents.add scanFloat entry = some that.contents := by
    rw [← contents_addUnlocked scanFloat this entry onDemand, hadd, Option.map_some]
  have hrun : (lines ++ [entry]).foldlM (Contents.add scanFloat) Contents.empty =
      some that.contents := by
    rw [List.foldlM_append, h.contents]
    exact (congrArg (Option.bind · some) hc).trans (Option.bind_some ..)
  have hlines : ∀ line ∈ lines ++ [entry], LF ∉ line := by
    intro line hline
    rcases List.mem_append.mp hline with hline | hline
    · exact h.lf line hline
    · rwa [List.mem_singleton.mp hline]
  rw [Sourcetable.addUnlocked] at hadd
  rw [Contents.add] at hc
  by_cases hstr : entry.take 4 = Sourceline.strMark
  · have hhead : isHeader entry = false := by rw [isHeader, decide_not, decide_eq_true hstr]; rfl
    rw [if_pos hstr] at hadd
    rw [hhead, if_neg Bool.false_ne_true] at hc
    obtain ⟨s, hs, hdirect⟩ := Option.bind_eq_some_iff.mp hadd
    obtain ⟨key, -, hline⟩ := Option.bind_eq_some_iff.mp hc
    have hheader : that.header = this.header := by
      rw [Contents.addLine] at hline
      split at hline
      · exact (congrArg Contents.header (Option.some.inj hline)).symm
      · contradiction
    have hvalues := (HashTable.elements_add_perm (addDirect_eq_some hdirect).1).map (·.2.value)
    rw [List.map_cons, Sourceline.value_of_newParse hs] at hvalues
    refine ⟨hlines, hrun, ?_, ?_⟩
    · rw [hheader, h.header, List.filter_append, List.filter_singleton, hhead]
      exact congrArg joinLines (List.append_nil _).symm
    · rw [List.filter_append, List.filter_singleton, hhead]
      exact (hvalues.trans (h.values.cons entry)).trans (List.perm_append_singleton entry _).symm
  · have hhead : isHeader entry = true := by rw [isHeader, decide_not, decide_eq_false hstr]; rfl
    rw [if_neg hstr] at hadd
    obtain rfl := Option.some.inj hadd
    refine ⟨hlines, hrun, ?_, ?_⟩
    · rw [List.filter_append, List.filter_singleton, hhead]
      dsimp only
      rw [h.header, joinLines_append, List.append_assoc, ← joinLines_singleton]
      rfl
    · rw [List.filter_append, List.filter_singleton, hhead]
      rw [Bool.not_true, cond_false, List.append_nil]
      exact h.values

theorem lf_not_mem_of_mem_fileLines {content line : List Byte} (h : line ∈ fileLines content) :
    LF ∉ line := by
  obtain ⟨part, hpart, rfl⟩ := List.mem_map.mp h
  intro hmem
  rw [List.mem_reverse] at hmem
  have hlf := List.mem_reverse.mp ((List.dropWhile_sublist _).subset hmem)
  exact Lines.not_mem_of_mem_splitOn hpart hlf

/-- **Every table of the kind is made of lines.** -/
theorem FromLines.exists_added (h : FromLines scanFloat this) :
    ∃ lines, this.Added scanFloat lines := by
  induction h with
  | read h =>
    simp only [Sourcetable.read] at h
    refine Fold.preserves_of_mem
      (P := fun t : Sourcetable F => ∃ lines, t.Added scanFloat lines) (fun t line hmem t' => ?_)
      ⟨[], added_nil rfl rfl⟩ h
    rintro ⟨lines, hlines⟩ hstep
    rw [readLine] at hstep
    split at hstep
    · exact ⟨lines, Option.some.inj hstep ▸ hlines⟩
    · split at hstep
      · exact ⟨lines, Option.some.inj hstep ▸ hlines⟩
      · exact ⟨_, hlines.addUnlocked (fun hlf => lf_not_mem_of_mem_fileLines hmem
          (List.takeWhile_subset _ hlf)) hstep⟩
  | new host port tls => exact ⟨[], added_nil rfl rfl⟩
  | add _ _ hlf hadd ih =>
    obtain ⟨lines, hlines⟩ := ih
    exact ⟨_, hlines.addUnlocked hlf hadd⟩
  | @assign t t' _ hkey hheader ih =>
    obtain ⟨lines, hlines⟩ := ih
    have hcontents : t'.contents = t.contents := by rw [Sourcetable.contents, hkey, hheader]; rfl
    exact ⟨lines, hlines.lf, hcontents ▸ hlines.contents, hheader ▸ hlines.header,
      hkey ▸ hlines.values⟩

/-! ### The lines of the text -/

theorem Added.headerLines (h : this.Added scanFloat lines) :
    crlfLines this.header = lines.filter isHeader := by
  rw [h.header]
  exact crlfLines_joinLines fun line hline => h.lf line (List.mem_of_mem_filter hline)

theorem Added.values_perm (h : this.Added scanFloat lines) :
    this.values.Perm (lines.filter fun line => !isHeader line) :=
  (this.keyVal.hashArray_perm.map _).trans h.values

/-- The lines before the last one. -/
theorem Added.textLines (h : this.Added scanFloat lines) :
    crlfLines this.text = lines.filter isHeader ++ this.values ++ [endMark] := by
  have htext : this.text = joinLines (lines.filter isHeader ++ this.values ++ [endMark]) := by
    rw [text, h.header, joinLines_append, joinLines_append, joinLines_singleton]
  rw [htext]
  refine crlfLines_joinLines fun line hline => ?_
  rcases List.mem_append.mp hline with hline | hline
  · rcases List.mem_append.mp hline with hline | hline
    · exact h.lf line (List.mem_of_mem_filter hline)
    · exact h.lf line (List.mem_of_mem_filter (h.values_perm.subset hline))
  · rw [List.mem_singleton.mp hline]
    decide

/-- **The lines of the text are those that were added, in another order.** -/
theorem Added.reordered (h : this.Added scanFloat lines) :
    Reordered isHeader lines (lines.filter isHeader ++ this.values) := by
  constructor
  · exact (List.filter_append_perm isHeader lines).symm.trans (h.values_perm.symm.append_left _)
  · have hvalues : this.values.filter isHeader = [] := by
      refine List.filter_eq_nil_iff.mpr fun line hline => ?_
      have hmem := List.of_mem_filter (h.values_perm.subset hline)
      simpa using hmem
    rw [List.filter_append, hvalues, List.append_nil, List.filter_filter]
    simp only [Bool.and_self]

/-- **They make the same table**, when they are added to an empty one. -/
theorem Added.foldlM_addUnlocked (h : this.Added scanFloat lines) {start : Sourcetable F}
    (hstart : start.contents = Contents.empty) :
    ∃ that, (lines.filter isHeader ++ this.values).foldlM
        (fun t line => t.addUnlocked scanFloat line true) start = some that ∧
      that.contents = this.contents := by
  have hmap : ((lines.filter isHeader ++ this.values).foldlM
      (fun (t : Sourcetable F) line => t.addUnlocked scanFloat line true) start).map
        Sourcetable.contents = some this.contents := by
    rw [Fold.map_foldlM fun (t : Sourcetable F) line => contents_addUnlocked scanFloat t line true,
      hstart, ← h.contents]
    exact (Fold.foldlM_reorder (fun a c ha b => Contents.add_comm scanFloat c ha b) h.reordered.1
      h.reordered.2 _).symm
  exact Option.map_eq_some_iff.mp hmap

/-- The source lines of a table are not its last line. -/
theorem Added.endMark_not_mem_values (h : this.Added scanFloat lines) : endMark ∉ this.values := by
  intro hmem
  have hhead := List.of_mem_filter (h.values_perm.subset hmem)
  contradiction

/-- A header without a line `ENDSOURCETABLE`: the table is put into the stack at the end. -/
theorem Added.fetched (h : this.Added scanFloat lines) (hend : endMark ∉ lines.filter isHeader)
    (text : Json → CString) (host : CString) (port : BitVec 16) (tls : Bool) (priority : ℤ)
    (now : Timeval) :
    (∀ k < (crlfLines this.text).length,
      ((SourcetableFetchArgs.start host port tls priority).feed scanFloat text now
        ((crlfLines this.text).take k)).replaced = []) ∧
    ∃ that : Sourcetable F,
      ((SourcetableFetchArgs.start host port tls priority).feed scanFloat text now
        (crlfLines this.text)).replaced = [that] ∧ that.contents = this.contents := by
  obtain ⟨that, hthat, hcontents⟩ := h.foldlM_addUnlocked
    (@contents_of_empty F { new (some host) port tls with priority := priority } rfl rfl)
  have hnot : endMark ∉ lines.filter isHeader ++ this.values := by
    rw [List.mem_append, not_or]
    exact ⟨hend, h.endMark_not_mem_values⟩
  rw [h.textLines]
  refine ⟨fun k hk => ?_, { that with fetchTime := now, pullable := true }, ?_, hcontents⟩
  · rw [List.length_append, List.length_singleton] at hk
    rw [List.take_append_of_le_length (by omega)]
    rw [← List.take_append_drop k (lines.filter isHeader ++ this.values)] at hthat
    obtain ⟨t, ht⟩ := Fold.exists_foldlM_left hthat
    rw [SourcetableFetchArgs.feed_of_not_mem rfl rfl (fun hmem => hnot (List.mem_of_mem_take hmem))
      ht]
    rfl
  · rw [SourcetableFetchArgs.feed_append, SourcetableFetchArgs.feed_of_not_mem rfl rfl hnot hthat,
      SourcetableFetchArgs.feed_cons, SourcetableFetchArgs.sourcetableLineCb_endMark rfl]
    rfl

/-- A header with such a line: a table is put into the stack before the end. -/
theorem Added.exists_replaced (h : this.Added scanFloat lines)
    (hend : endMark ∈ lines.filter isHeader) (text : Json → CString) (host : CString)
    (port : BitVec 16) (tls : Bool) (priority : ℤ) (now : Timeval) :
    ∃ k < (crlfLines this.text).length,
      ((SourcetableFetchArgs.start host port tls priority).feed scanFloat text now
        ((crlfLines this.text).take k)).replaced ≠ [] := by
  obtain ⟨that, hthat, -⟩ := h.foldlM_addUnlocked
    (@contents_of_empty F { new (some host) port tls with priority := priority } rfl rfl)
  obtain ⟨u, v, huv, hu⟩ := List.eq_append_cons_of_mem hend
  rw [h.textLines]
  rw [huv, List.append_assoc] at hthat
  obtain ⟨t, ht⟩ := Fold.exists_foldlM_left hthat
  have hlines : lines.filter isHeader ++ this.values ++ [endMark] =
      u ++ [endMark] ++ (v ++ this.values ++ [endMark]) := by
    rw [huv]
    simp only [List.append_assoc, List.cons_append, List.nil_append]
  refine ⟨(u ++ [endMark]).length, ?_, ?_⟩
  · have hrest : 0 < (v ++ this.values ++ [endMark]).length := by
      rw [List.length_append]
      exact Nat.succ_pos _
    have hlength := congrArg List.length hlines
    rw [@List.length_append _ (u ++ [endMark])] at hlength
    omega
  · rw [hlines, List.take_left, SourcetableFetchArgs.feed_append,
      SourcetableFetchArgs.feed_of_not_mem rfl rfl hu ht, SourcetableFetchArgs.feed_cons,
      SourcetableFetchArgs.sourcetableLineCb_endMark rfl]
    exact List.cons_ne_nil _ _

/-- **A table survives a fetch** unless its header has a line `ENDSOURCETABLE`. -/
theorem survivesFetch_iff (h : FromLines scanFloat this) :
    this.SurvivesFetch scanFloat text ↔ endMark ∉ crlfLines this.header := by
  obtain ⟨lines, hlines⟩ := h.exists_added
  rw [hlines.headerLines]
  constructor
  · intro hs hend
    obtain ⟨k, hk, hne⟩ := hlines.exists_replaced hend text [] 0 false 0 ⟨0, 0⟩
    exact hne (((hs.fetched _ _ this.get_eq).2 [] 0 false 0 ⟨0, 0⟩).1 k hk)
  · intro hend
    refine ⟨⟨_, this.get_eq⟩, fun _ _ _ hr => get_reorder hr, fun _ _ _ _ hr => read_reorder hr,
      fun s n hget => ?_⟩
    obtain ⟨rfl, -⟩ := Prod.mk.inj (Option.some.inj (this.get_eq.symm.trans hget))
    refine ⟨by rw [hlines.textLines, List.getLast?_concat], fun host port tls priority now => ?_⟩
    obtain ⟨hearly, that, hthat, hcontents⟩ := hlines.fetched hend text host port tls priority now
    exact ⟨hearly, that, hthat, congrArg Contents.header hcontents,
      fun key => congrFun (congrArg Contents.line hcontents) key⟩

/-- A file with a line of the header and a source line. -/
theorem survivesFetch_iff_file : ∃ this : Sourcetable ℤ,
    Sourcetable.read strtoll (cstr "sourcetable.dat")
      (cstr "CAS;a" ++ [LF] ++ Stack.baseLine "5" ++ [LF]) 9 = some this ∧
    (this.keyVal.get (cstr "M")).isSome = true ∧ this.SurvivesFetch strtoll fun _ => [] := by
  have hobserve : (Sourcetable.read strtoll (cstr "sourcetable.dat")
      (cstr "CAS;a" ++ [LF] ++ Stack.baseLine "5" ++ [LF]) 9).map
      (fun this => (this.header, (this.keyVal.get (cstr "M")).isSome)) =
        some (cstr "CAS;a" ++ crlf, true) := by
    decide +kernel
  obtain ⟨this, hread, hthis⟩ := Option.map_eq_some_iff.mp hobserve
  obtain ⟨hheader, hsome⟩ := Prod.mk.inj hthis
  refine ⟨this, hread, hsome, (survivesFetch_iff (.read hread)).mpr ?_⟩
  have hlines : crlfLines this.header = [cstr "CAS;a"] := by
    rw [hheader, ← joinLines_singleton]
    exact crlfLines_joinLines (by decide)
  rw [hlines]
  decide

/-- A file saved from another caster: its last line ends the text before the source line. -/
theorem not_survivesFetch_saved :
    ¬ ∀ this : Sourcetable ℤ, FromLines strtoll this → this.SurvivesFetch strtoll fun _ => [] := by
  intro hall
  have hobserve : (Sourcetable.read strtoll (cstr "sourcetable.dat")
      (Stack.baseLine "5" ++ [LF] ++ endMark ++ [LF]) 9).map (·.header) =
        some (endMark ++ crlf) := by
    decide +kernel
  obtain ⟨this, hread, hheader⟩ := Option.map_eq_some_iff.mp hobserve
  obtain ⟨lines, hlines⟩ := (FromLines.read hread).exists_added
  have hend : endMark ∈ lines.filter isHeader := by
    rw [← hlines.headerLines, hheader, ← joinLines_singleton, crlfLines_joinLines (by decide)]
    exact List.mem_cons_self
  obtain ⟨k, hk, hne⟩ := hlines.exists_replaced hend (fun _ => []) [] 0 false 0 ⟨0, 0⟩
  exact hne ((((hall this (.read hread)).fetched _ _ this.get_eq).2 [] 0 false 0 ⟨0, 0⟩).1 k hk)

end Sourcetable

end ChilopodCaster
