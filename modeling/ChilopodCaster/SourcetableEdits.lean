import ChilopodCaster.AccountLists
import ChilopodCaster.Lib.Copies
import Mathlib.Data.List.Nodup

/-!
# Edits of the sourcetable file

The administration API adds a source line to the file, leaves the lines of a mountpoint out of it,
or sets one field of the line of a mountpoint. It finds the line by its second field. The reader
goes by the first one: only a line that begins with `STR;` is an entry, and the file has comments
and other records too, in which any text can stand in the second field.

## Main definitions

* `texts` — the lines of a file as the reader takes them
* `updateSourcetableField` — `update_sourcetable_field`
* `SourcetableEdited` — an edit that touches the entries only, as it should

## Main results

* `read_isSome_iff` — when the file can be read
* `updated_iff`, `removed_iff`, `added_iff` — when each edit touches only the entry it is about
-/

namespace ChilopodCaster

open Copies Lines

/-! ### What the reader sees -/

/-- A line that is not empty, as far as its first NUL. -/
def readText (line : List Byte) : Option CString :=
  if stripEol line = [] then none else some (lineText line)

/-- The lines of a file as the reader takes them. -/
def texts (content : List Byte) : List CString := (lines LF content).filterMap readText

/-- A line that the reader files in its table. -/
def IsEntry (text : CString) : Prop := text.take 4 = Sourceline.strMark

instance instDecidablePredIsEntry : DecidablePred IsEntry :=
  fun text => inferInstanceAs (Decidable (text.take 4 = Sourceline.strMark))

/-- The entries of a file. -/
def strEntries (content : List Byte) : List CString := (texts content).filter fun t => IsEntry t

/-- The other lines: comments and other records. -/
def otherLines (content : List Byte) : List CString := (texts content).filter fun t => ¬ IsEntry t

/-- The fields of a line. -/
def fieldsOf (text : CString) : List CString := text.splitOn Sourceline.semicolon

/-- The name in a line. -/
def entryKey (text : CString) : CString := field (fieldsOf text) 1

section

variable {F : Type} {scanFloat : CString → Option F}

/-- An entry has 19 fields, and numbers for its coordinates. -/
structure Parses (scanFloat : CString → Option F) (text : CString) : Prop where
  length : (fieldsOf text).length = 19
  lat : (scanFloat (field (fieldsOf text) 9)).isSome = true
  lon : (scanFloat (field (fieldsOf text) 10)).isSome = true

theorem fieldsOf_of_isEntry {text : CString} (h : IsEntry text) :
    fieldsOf text =
      cstr "STR" :: fieldsOf (text.drop 4) := by
  have htext : text = cstr "STR" ++ Sourceline.semicolon :: text.drop 4 := by
    conv_lhs => rw [← List.take_append_drop 4 text, h]
    rfl
  conv_lhs => rw [htext]
  rw [fieldsOf, List.splitOn_append_cons_self, List.splitOn_eq_singleton (by decide)]
  rfl

theorem head?_splitOn (c : Byte) (s : CString) :
    (s.splitOn c).getD 0 [] = s.takeWhile (· ≠ c) := by
  induction s with
  | nil => rfl
  | cons a s ih =>
    rw [List.splitOn_cons_eq_if_modifyHead, List.takeWhile_cons]
    obtain ⟨f, fs, hfs⟩ := List.exists_cons_of_ne_nil (List.splitOn_ne_nil c s)
    by_cases ha : a = c
    · rw [if_pos (beq_iff_eq.mpr ha), if_neg (by rw [decide_eq_true_iff]; exact fun h => h ha)]
      rfl
    · rw [if_neg (mt beq_iff_eq.mp ha), if_pos (decide_eq_true ha), ← ih, hfs]
      rfl

theorem semicolon_follows {text : CString} (h : IsEntry text)
    (hlength : (fieldsOf text).length = 19) :
    (text.drop 4).dropWhile (· ≠ Sourceline.semicolon) ≠ [] := by
  intro hnil
  rw [List.dropWhile_eq_nil_iff] at hnil
  have hnot : Sourceline.semicolon ∉ text.drop 4 := fun hc =>
    absurd rfl (of_decide_eq_true (hnil _ hc))
  rw [fieldsOf_of_isEntry h, fieldsOf, List.splitOn_eq_singleton hnot] at hlength
  exact absurd (Nat.succ.inj (Nat.succ.inj hlength)) (by decide)

theorem exists_newParse {text caster : CString} {port : BitVec 16} {tls onDemand : Bool}
    (h : IsEntry text) (hparses : Parses scanFloat text) :
    ∃ s, Sourceline.newParse scanFloat text caster port tls onDemand = some s := by
  obtain ⟨lat, hlat⟩ := Option.isSome_iff_exists.mp hparses.lat
  obtain ⟨lon, hlon⟩ := Option.isSome_iff_exists.mp hparses.lon
  have hfollows := semicolon_follows h hparses.length
  have hlength := hparses.length
  rw [field, fieldsOf] at hlat hlon
  rw [fieldsOf] at hlength
  have hmark : text.take 4 = Sourceline.strMark := h
  rw [Sourceline.newParse, if_neg (not_not.mpr hmark)]
  simp only [hfollows, hlength, hlat, hlon, if_false, ne_eq, not_true_eq_false]
  exact ⟨_, rfl⟩

theorem newParse_eq_some {text caster : CString} {port : BitVec 16} {tls onDemand : Bool}
    {s : Sourceline F} (h : Sourceline.newParse scanFloat text caster port tls onDemand = some s) :
    Parses scanFloat text ∧ s.key = entryKey text ∧ s.value = text := by
  simp only [Sourceline.newParse, Option.bind_eq_bind, pure, Option.bind_none] at h
  split at h
  · contradiction
  · next hentry =>
    split at h
    · contradiction
    · split at h
      · contradiction
      · next hlength =>
        obtain ⟨lat, hlat, h⟩ := Option.bind_eq_some_iff.mp h
        obtain ⟨lon, hlon, h⟩ := Option.bind_eq_some_iff.mp h
        obtain rfl := Option.some.inj h
        refine ⟨⟨not_not.mp hlength, Option.isSome_of_eq_some hlat, Option.isSome_of_eq_some hlon⟩,
          ?_, rfl⟩
        change (text.drop 4).takeWhile (· ≠ Sourceline.semicolon) = entryKey text
        rw [entryKey, fieldsOf_of_isEntry (not_not.mp hentry), ← head?_splitOn]
        rfl

/-! ### Reading -/

/-- What a line does to the table. -/
def addText (scanFloat : CString → Option F) (this : Sourcetable F) (text : CString) :
    Option (Sourcetable F) :=
  if (text.dropWhile isspace).head? = some hash then some this
  else this.addUnlocked scanFloat text false

theorem foldlM_readLine (ls : List (List Byte)) (this : Sourcetable F) :
    ls.foldlM (fun this line => Sourcetable.readLine scanFloat this (stripEol line)) this =
      (ls.filterMap readText).foldlM (addText scanFloat) this := by
  induction ls generalizing this with
  | nil => rfl
  | cons line ls ih =>
    rw [List.foldlM_cons, Sourcetable.readLine]
    by_cases hempty : stripEol line = []
    · have hread : readText line = none := if_pos hempty
      rw [if_pos hempty, List.filterMap_cons_none hread]
      exact ih this
    · have hread : readText line = some (lineText line) := if_neg hempty
      rw [if_neg hempty, List.filterMap_cons_some hread, List.foldlM_cons]
      exact congrArg (Option.bind _) (funext fun that => ih that)

theorem read_eq (filename : CString) (content : List Byte) (priority : ℤ) :
    Sourcetable.read scanFloat filename content priority =
      (texts content).foldlM (addText scanFloat)
        { (Sourcetable.new (some Sourcetable.localName) 0 false : Sourcetable F) with
          isLocal := true
          filename := some filename
          priority := priority } := by
  have htexts : (content.splitOn LF).filterMap readText = texts content :=
    filterMap_splitOn readText
      (fun l => by rw [readText, readText, stripEol_append_lf, lineText_append_lf]) rfl content
  rw [← htexts, ← foldlM_readLine, Sourcetable.read, fileLines_eq, List.foldlM_map]

theorem not_comment_of_isEntry {text : CString} (h : IsEntry text) :
    (text.dropWhile isspace).head? ≠ some hash := by
  have htext : text = 0x53 :: (cstr "TR;" ++ text.drop 4) := by
    conv_lhs => rw [← List.take_append_drop 4 text, h]
    rfl
  rw [htext, List.dropWhile_cons_of_neg (by decide)]
  exact fun hhead => absurd (Option.some.inj hhead) (by decide)

theorem addText_of_isEntry {text : CString} (h : IsEntry text) (this : Sourcetable F) :
    addText scanFloat this text = this.addUnlocked scanFloat text false :=
  if_neg (not_comment_of_isEntry h)

theorem exists_addText_of_not {text : CString} (h : ¬ IsEntry text) (this : Sourcetable F) :
    ∃ that, addText scanFloat this text = some that ∧ that.keyVal = this.keyVal := by
  rw [addText]
  split
  · exact ⟨this, rfl, rfl⟩
  · have hmark : ¬ text.take 4 = Sourceline.strMark := h
    rw [Sourcetable.addUnlocked, if_neg hmark]
    exact ⟨_, rfl, rfl⟩

theorem addText_isSome_iff {text : CString} (h : IsEntry text) (this : Sourcetable F) :
    (∃ that, addText scanFloat this text = some that) ↔
      Parses scanFloat text ∧ this.keyVal.get (entryKey text) = none := by
  have hmark : text.take 4 = Sourceline.strMark := h
  rw [addText_of_isEntry h, Sourcetable.addUnlocked, if_pos hmark]
  constructor
  · rintro ⟨that, hthat⟩
    obtain ⟨s, hs, hadd⟩ := Option.bind_eq_some_iff.mp hthat
    obtain ⟨hparses, hkey, -⟩ := newParse_eq_some hs
    exact ⟨hparses, hkey ▸ HashTable.get_eq_none_of_add (Sourcetable.addDirect_eq_some hadd).1⟩
  · rintro ⟨hparses, hnone⟩
    obtain ⟨s, hs⟩ := exists_newParse h hparses
    obtain ⟨-, hkey, -⟩ := newParse_eq_some hs
    obtain ⟨that, hadd⟩ := Sourcetable.exists_addDirect (hkey ▸ hnone)
    exact ⟨that, Option.bind_eq_some_iff.mpr ⟨s, hs, hadd⟩⟩

theorem get_of_addText {text : CString} (h : IsEntry text) {this that : Sourcetable F}
    (hadd : addText scanFloat this text = some that) (key : CString) :
    that.keyVal.get key = none ↔ key ≠ entryKey text ∧ this.keyVal.get key = none := by
  have hmark : text.take 4 = Sourceline.strMark := h
  rw [addText_of_isEntry h, Sourcetable.addUnlocked, if_pos hmark] at hadd
  obtain ⟨s, hs, hadd⟩ := Option.bind_eq_some_iff.mp hadd
  rw [HashTable.get_add (Sourcetable.addDirect_eq_some hadd).1, (newParse_eq_some hs).2.1]
  split
  · next hkey => exact iff_of_false (Option.some_ne_none s) fun h => h.1 hkey
  · next hkey => exact (and_iff_right hkey).symm

theorem foldlM_addText_iff (ts : List CString) (this : Sourcetable F) :
    (∃ that, ts.foldlM (addText scanFloat) this = some that) ↔
      (∀ t ∈ ts.filter fun t => IsEntry t, Parses scanFloat t) ∧
        ((ts.filter fun t => IsEntry t).map entryKey).Nodup ∧
        ∀ t ∈ ts.filter fun t => IsEntry t, this.keyVal.get (entryKey t) = none := by
  induction ts generalizing this with
  | nil =>
    refine iff_of_true ⟨this, rfl⟩ ⟨fun t ht => ?_, List.nodup_nil, fun t ht => ?_⟩
    · exact absurd ht List.not_mem_nil
    · exact absurd ht List.not_mem_nil
  | cons t ts ih =>
    rw [List.foldlM_cons]
    by_cases hentry : IsEntry t
    · have hfilter : ((t :: ts).filter fun t => IsEntry t) = t :: ts.filter fun t => IsEntry t := by
        rw [List.filter_cons, if_pos (decide_eq_true hentry)]
      rw [hfilter, List.map_cons, List.nodup_cons, List.forall_mem_cons, List.forall_mem_cons]
      constructor
      · rintro ⟨that, hthat⟩
        obtain ⟨mid, hmid, hthat⟩ := Option.bind_eq_some_iff.mp hthat
        obtain ⟨hparses, hnodup, hget⟩ := (ih mid).mp ⟨that, hthat⟩
        obtain ⟨hparse, hnone⟩ := (addText_isSome_iff hentry this).mp ⟨mid, hmid⟩
        have hget := fun t' ht' => (get_of_addText hentry hmid _).mp (hget t' ht')
        refine ⟨⟨hparse, hparses⟩, ⟨fun hmem => ?_, hnodup⟩, hnone, fun t' ht' => (hget t' ht').2⟩
        obtain ⟨t', ht', hkey⟩ := List.mem_map.mp hmem
        exact (hget t' ht').1 hkey
      · rintro ⟨⟨hparse, hparses⟩, ⟨hnot, hnodup⟩, hnone, hget⟩
        obtain ⟨mid, hmid⟩ := (addText_isSome_iff hentry this).mpr ⟨hparse, hnone⟩
        obtain ⟨that, hthat⟩ := (ih mid).mpr ⟨hparses, hnodup, fun t' ht' =>
          (get_of_addText hentry hmid _).mpr
            ⟨fun hkey => hnot (hkey ▸ List.mem_map_of_mem ht'), hget t' ht'⟩⟩
        exact ⟨that, Option.bind_eq_some_iff.mpr ⟨mid, hmid, hthat⟩⟩
    · obtain ⟨that, hthat, hkeyVal⟩ := @exists_addText_of_not F scanFloat t hentry this
      have hfilter : ((t :: ts).filter fun t => IsEntry t) = ts.filter fun t => IsEntry t := by
        rw [List.filter_cons, if_neg (by rwa [decide_eq_true_iff])]
      rw [hthat, hfilter, ← hkeyVal]
      exact ih that

/-- **When a file can be read.** Each entry is well formed, and no two have one name. -/
theorem read_isSome_iff (filename : CString) (content : List Byte) (priority : ℤ) :
    (∃ table, Sourcetable.read scanFloat filename content priority = some table) ↔
      (∀ t ∈ strEntries content, Parses scanFloat t) ∧
        ((strEntries content).map entryKey).Nodup := by
  rw [read_eq, foldlM_addText_iff]
  refine and_congr_right fun _ => and_iff_left fun t _ => ?_
  exact HashTable.get_new HashTable.zero_lt_509 (entryKey t)

/-! ### Edits -/

/-- The lines of the copy in `update_sourcetable_field`, and whether one was updated. -/
def updateSourcetableLines (mountpoint : CString) (targetField : ℕ) (newValue : CString) :
    List (List Byte) → List (List Byte) × Bool
  | [] => ([], false)
  | line :: rest =>
    if HasField Sourceline.semicolon 1 mountpoint (stripEol line) then
      (([Sourceline.semicolon].intercalate ((colonFields Sourceline.semicolon
        (stripEol line)).set targetField newValue) ++ [LF]) :: rest.map printLine, true)
    else
      let copy := updateSourcetableLines mountpoint targetField newValue rest
      (printLine line :: copy.1, copy.2)

/-- `update_sourcetable_field`: the copy, which takes the place of the file, and whether a line was
updated. -/
def updateSourcetableField (content : List Byte) (mountpoint : CString) (targetField : ℕ)
    (newValue : CString) : List Byte × Bool :=
  let copy := updateSourcetableLines mountpoint targetField newValue (lines LF content)
  (copy.1.flatten, copy.2)

/-- An edit touches the entries as it should, and no other line: the file can still be read. -/
structure SourcetableEdited (scanFloat : CString → Option F) (before after : List Byte)
    (f : List CString → List CString) : Prop where
  accepted : ∀ filename priority, ∃ table,
    Sourcetable.read scanFloat filename after priority = some table
  entries : strEntries after = f (strEntries before)
  others : otherLines after = otherLines before

/-- The second field of a line is this one, and another one follows. -/
def HasName (mountpoint text : CString) : Prop :=
  2 < (fieldsOf text).length ∧ entryKey text = mountpoint

instance instDecidablePredHasName (mountpoint : CString) : DecidablePred (HasName mountpoint) :=
  fun text => inferInstanceAs (Decidable (2 < (fieldsOf text).length ∧
    entryKey text = mountpoint))

/-- A line with another field. -/
def setText (targetField : ℕ) (newValue text : CString) : CString :=
  [Sourceline.semicolon].intercalate
    ((fieldsOf text).set targetField newValue)

/-- What is read of the copy of a line. -/
def copied (text : CString) : Option CString :=
  if stripEol text = [] then none else some (stripEol text)

/-- What is read of a line of the copy. -/
def copyText (targetField : ℕ) (newValue : CString) (line : Bool × CString) : Option CString :=
  if line.1 then some (stripEol (setText targetField newValue line.2)) else copied line.2

theorem readText_append_lf (line : List Byte) : readText (line ++ [LF]) = readText line := by
  rw [readText, readText, stripEol_append_lf, lineText_append_lf]

theorem lineText_of_not_mem {text : List Byte} (h : 0 ∉ text) : lineText text = stripEol text :=
  toCString_of_not_mem (mt mem_of_mem_stripEol h)

theorem readText_printLine (line : List Byte) :
    readText (printLine line) = (readText line).bind copied := by
  have hprint : readText (printLine line) = copied (lineText line) := by
    have hline : printLine line = lineText line ++ [LF] := rfl
    rw [hline, readText_append_lf, readText, lineText_of_not_mem (not_mem_lineText line)]
    rfl
  rw [hprint, readText]
  split
  · next hempty =>
    rw [lineText, hempty]
    rfl
  · rfl

theorem filterMap_map_printLine (ls : List (List Byte)) :
    (ls.map printLine).filterMap readText = (ls.filterMap readText).filterMap copied := by
  rw [List.filterMap_map, List.filterMap_filterMap]
  exact List.filterMap_congr fun line _ => readText_printLine line

theorem hasField_iff_hasName {mountpoint : CString} {line : List Byte} :
    HasField Sourceline.semicolon 1 mountpoint (stripEol line) ↔
      HasName mountpoint (lineText line) := Iff.rfl

theorem intercalate_ne_nil {sep : Byte} {fields : List CString} (h : 1 < fields.length) :
    [sep].intercalate fields ≠ [] := by
  rcases fields with - | ⟨f, - | ⟨f', fs⟩⟩
  · exact absurd h (Nat.not_lt_zero 1)
  · exact absurd h (Nat.lt_irrefl 1)
  · rw [List.intercalate_cons_cons]
    exact List.append_ne_nil_of_left_ne_nil
      (List.append_ne_nil_of_right_ne_nil f (List.cons_ne_nil sep [])) _

theorem not_mem_setText {newValue : CString} (hnul : 0 ∉ newValue) {text : CString}
    (htext : 0 ∉ text) (targetField : ℕ) : 0 ∉ setText targetField newValue text := by
  refine not_mem_joined (by decide) fun f hf => ?_
  rcases List.mem_or_eq_of_mem_set hf with hf | rfl
  · exact fun hc => htext (mem_of_mem_splitOn hf hc)
  · exact hnul

theorem stripEol_setText_ne_nil {targetField : ℕ} {newValue text : CString}
    (h : 1 < (fieldsOf text).length) :
    stripEol (setText targetField newValue text) ≠ [] := by
  have hne : (fieldsOf text).set targetField newValue ≠ [] := by
    rw [ne_eq, List.set_eq_nil_iff]
    exact List.splitOn_ne_nil _ _
  rw [setText, stripEol_intercalate (by decide) hne]
  exact intercalate_ne_nil (by rwa [length_stripLast, List.length_set])

theorem readText_set {targetField : ℕ} {newValue : CString} (hnul : 0 ∉ newValue)
    {line : List Byte} (hlength : 2 < (fieldsOf (lineText line)).length) :
    readText ([Sourceline.semicolon].intercalate ((colonFields Sourceline.semicolon
      (stripEol line)).set targetField newValue) ++ [LF]) =
        some (stripEol (setText targetField newValue (lineText line))) := by
  change readText (setText targetField newValue (lineText line) ++ [LF]) = _
  rw [readText_append_lf, readText, if_neg (stripEol_setText_ne_nil (by omega)),
    lineText_of_not_mem (not_mem_setText hnul (not_mem_lineText line) targetField)]

theorem filterMap_updateSourcetableLines {mountpoint : CString} {targetField : ℕ}
    {newValue : CString} (hnul : 0 ∉ newValue) (ls : List (List Byte)) :
    (updateSourcetableLines mountpoint targetField newValue ls).1.filterMap readText =
      (tagFirst (fun t => HasName mountpoint t) (ls.filterMap readText)).filterMap
        (copyText targetField newValue) := by
  have hcopies : ∀ ts : List CString,
      (ts.map (Prod.mk false)).filterMap (copyText targetField newValue) = ts.filterMap copied := by
    intro ts
    rw [List.filterMap_map]
    rfl
  induction ls with
  | nil => rfl
  | cons line rest ih =>
    rw [updateSourcetableLines]
    by_cases hmatch : HasField Sourceline.semicolon 1 mountpoint (stripEol line)
    · have hname := hasField_iff_hasName.mp hmatch
      have hread : readText line = some (lineText line) := by
        refine if_neg fun hempty => ?_
        rw [HasName, lineText, hempty] at hname
        exact absurd hname.1 (by decide)
      rw [if_pos hmatch, List.filterMap_cons_some (readText_set hnul hname.1),
        List.filterMap_cons_some hread, tagFirst, if_pos (decide_eq_true hname),
        filterMap_map_printLine, List.filterMap_cons, hcopies]
      rfl
    · rw [if_neg hmatch, List.filterMap_cons, readText_printLine, ih, List.filterMap_cons]
      cases hread : readText line with
      | none => rfl
      | some t =>
        have ht : t = lineText line := by
          rw [readText] at hread
          split at hread
          · contradiction
          · exact (Option.some.inj hread).symm
        have hname : ¬ decide (HasName mountpoint t) = true := by
          rw [decide_eq_true_iff, ht]
          exact hmatch
        rw [tagFirst, if_neg hname, List.filterMap_cons]
        rfl

/-! ### Fields of a line -/

theorem isEntry_iff {text : CString} :
    IsEntry text ↔ 1 < (fieldsOf text).length ∧ field (fieldsOf text) 0 = cstr "STR" := by
  constructor
  · intro h
    rw [fieldsOf_of_isEntry h]
    refine ⟨?_, rfl⟩
    rw [List.length_cons]
    exact Nat.succ_lt_succ (List.length_pos_of_ne_nil (List.splitOn_ne_nil _ _))
  · rintro ⟨hlength, hfirst⟩
    have htext : [Sourceline.semicolon].intercalate (fieldsOf text) = text :=
      List.intercalate_splitOn _
    rcases hfields : fieldsOf text with - | ⟨f, - | ⟨f', fs⟩⟩
    · rw [hfields] at hlength
      exact absurd hlength (Nat.not_lt_zero 1)
    · rw [hfields] at hlength
      exact absurd hlength (Nat.lt_irrefl 1)
    · rw [hfields] at hfirst htext
      obtain rfl : f = cstr "STR" := hfirst
      rw [IsEntry, ← htext, List.intercalate_cons_cons]
      rfl

theorem fieldsOf_setText {newValue : CString} (hvalue : Sourceline.semicolon ∉ newValue)
    (targetField : ℕ) (text : CString) :
    fieldsOf (setText targetField newValue text) = (fieldsOf text).set targetField newValue := by
  refine List.splitOn_intercalate _ (fun f hf => ?_) ?_
  · rcases List.mem_or_eq_of_mem_set hf with hf | rfl
    · exact not_mem_of_mem_splitOn hf
    · exact hvalue
  · rw [ne_eq, List.set_eq_nil_iff]
    exact List.splitOn_ne_nil _ _

theorem fieldsOf_stripEol (text : CString) : fieldsOf (stripEol text) = stripLast (fieldsOf text) :=
  splitOn_stripEol (by decide) text

/-- A line is made of its fields. -/
theorem eq_of_fieldsOf {text text' : CString} (h : fieldsOf text = fieldsOf text') :
    text = text' := by
  have hjoined (t : CString) : [Sourceline.semicolon].intercalate (fieldsOf t) = t :=
    List.intercalate_splitOn _
  rw [← hjoined text, h, hjoined text']

theorem stripEol_eq_self_iff {text : CString} :
    stripEol text = text ↔ stripLast (fieldsOf text) = fieldsOf text := by
  rw [← fieldsOf_stripEol]
  exact ⟨congrArg fieldsOf, eq_of_fieldsOf⟩

theorem field_stripLast {r : List CString} {i : ℕ} (h : i + 1 < r.length) :
    field (stripLast r) i = field r i := by
  have hne : r ≠ [] := by
    rintro rfl
    exact Nat.not_lt_zero _ h
  rw [AccountFormat.stripLast_eq_set hne]
  exact AccountFormat.field_set_ne (by omega) r _

/-- The end of a line does not make it another entry. -/
theorem isEntry_stripEol {text : CString} : IsEntry (stripEol text) ↔ IsEntry text := by
  rw [isEntry_iff, isEntry_iff, fieldsOf_stripEol, length_stripLast]
  refine and_congr_right fun hlength => ?_
  rw [field_stripLast (by omega)]

theorem isEntry_setText {newValue : CString} (hvalue : Sourceline.semicolon ∉ newValue)
    {targetField : ℕ} (hpos : 0 < targetField) {text : CString} :
    IsEntry (setText targetField newValue text) ↔ IsEntry text := by
  rw [isEntry_iff, isEntry_iff, fieldsOf_setText hvalue, List.length_set, field_set hpos]

theorem stripLast_eq_self_iff {r : List CString} (h : 0 < r.length) :
    stripLast r = r ↔ stripEol (field r (r.length - 1)) = field r (r.length - 1) := by
  have hlt : r.length - 1 < r.length := Nat.sub_one_lt_of_lt h
  have hget : field r (r.length - 1) = r[r.length - 1] := by
    rw [field, List.getD_eq_getElem?_getD, List.getElem?_eq_getElem hlt, Option.getD_some]
  rw [AccountFormat.stripLast_eq_set (List.ne_nil_of_length_pos h)]
  constructor
  · intro hset
    have hfield := congrArg (field · (r.length - 1)) hset
    rwa [AccountFormat.field_set_eq hlt] at hfield
  · intro hlast
    rw [hlast, hget]
    exact List.set_getElem_self hlt

/-- A field that is not the last one is set in a line: the end of the line is as it was. -/
theorem stripEol_setText_iff {newValue : CString} (hsemicolon : Sourceline.semicolon ∉ newValue)
    {targetField : ℕ} {text : CString}
    (htarget : targetField + 1 < (fieldsOf text).length) :
    stripEol (setText targetField newValue text) = setText targetField newValue text ↔
      stripEol text = text := by
  have hpos : 0 < (fieldsOf text).length := Nat.lt_of_le_of_lt (Nat.zero_le _) htarget
  have hset : 0 < ((fieldsOf text).set targetField newValue).length := by rwa [List.length_set]
  rw [stripEol_eq_self_iff, stripEol_eq_self_iff, fieldsOf_setText hsemicolon,
    stripLast_eq_self_iff hpos, stripLast_eq_self_iff hset, List.length_set,
    AccountFormat.field_set_ne (by omega)]

/-- The copies of a line are read as it is. -/
theorem copied_eq_some_iff {text text' : CString} :
    copied text = some text' ↔ text' ≠ [] ∧ stripEol text = text' := by
  rw [copied]
  split
  · next hempty =>
    refine iff_of_false (Option.some_ne_none text').symm ?_
    rintro ⟨hne, h⟩
    exact hne (h ▸ hempty)
  · next hempty =>
    rw [Option.some_inj]
    refine ⟨fun h => ⟨h ▸ hempty, h⟩, fun h => h.2⟩

/-! ### One field is set -/

/-- What a field that is set makes of the entries. -/
def setEntries (mountpoint : CString) (targetField : ℕ) (newValue : CString)
    (entries : List CString) : List CString :=
  entries.map fun t => if entryKey t = mountpoint then setText targetField newValue t else t

/-- The content of the file is such that only the entry changes. No line begins with a NUL, or has a
carriage return right before its first NUL. The first line with the name is an entry, or nothing
changes in it, and nothing needs to change in the entry. -/
structure UpdateSafe (content : List Byte) (mountpoint : CString) (targetField : ℕ)
    (newValue : CString) : Prop where
  clean : ∀ t ∈ texts content, t ≠ [] ∧ stripEol t = t
  first : ∀ t, (texts content).find? (fun t => HasName mountpoint t) = some t → ¬ IsEntry t →
    setText targetField newValue t = t ∧
      ∀ e ∈ strEntries content, entryKey e = mountpoint → setText targetField newValue e = e

theorem parses_setText {newValue : CString} (hsemicolon : Sourceline.semicolon ∉ newValue)
    {targetField : ℕ}
    (hscan : targetField = 9 ∨ targetField = 10 → (scanFloat newValue).isSome = true)
    {text : CString} (h : Parses scanFloat text) :
    Parses scanFloat (setText targetField newValue text) := by
  have hfield {j : ℕ} (hj : j < 19) (hscan : targetField = j → (scanFloat newValue).isSome = true)
      (hold : (scanFloat (field (fieldsOf text) j)).isSome = true) :
      (scanFloat (field ((fieldsOf text).set targetField newValue) j)).isSome = true := by
    by_cases htarget : targetField = j
    · have hlt : targetField < (fieldsOf text).length := by rw [h.length, htarget]; exact hj
      rw [← htarget, AccountFormat.field_set_eq hlt]
      exact hscan htarget
    · rwa [AccountFormat.field_set_ne htarget]
  have hfields := fieldsOf_setText hsemicolon targetField text
  refine ⟨?_, ?_, ?_⟩
  · rw [hfields, List.length_set, h.length]
  · rw [hfields]
    exact hfield (by decide) (fun h9 => hscan (Or.inl h9)) h.lat
  · rw [hfields]
    exact hfield (by decide) (fun h10 => hscan (Or.inr h10)) h.lon

theorem entryKey_setText {newValue : CString} (hsemicolon : Sourceline.semicolon ∉ newValue)
    {targetField : ℕ} (htarget : 1 < targetField) (text : CString) :
    entryKey (setText targetField newValue text) = entryKey text := by
  have hfields := fieldsOf_setText hsemicolon targetField text
  rw [entryKey, hfields, AccountFormat.field_set_ne (by omega)]
  rfl

theorem hasName_of_parses {mountpoint text : CString} (h : Parses scanFloat text)
    (hkey : entryKey text = mountpoint) : HasName mountpoint text :=
  ⟨by rw [h.length]; decide, hkey⟩

theorem isLine_updateSourcetableLines {mountpoint newValue : CString} (hvalue : LF ∉ newValue)
    {targetField : ℕ} {ls : List (List Byte)} (hls : ∀ l ∈ ls, LF ∉ stripEol l) :
    ∀ l ∈ (updateSourcetableLines mountpoint targetField newValue ls).1, IsLine LF l := by
  induction ls with
  | nil =>
    intro l hl
    exact absurd hl List.not_mem_nil
  | cons line rest ih =>
    rw [List.forall_mem_cons] at hls
    rw [updateSourcetableLines]
    split
    · refine List.forall_mem_cons.mpr ⟨⟨_, not_mem_joined (by decide) fun f hf => ?_, rfl⟩, ?_⟩
      · rcases List.mem_or_eq_of_mem_set hf with hf | rfl
        · exact fun hc => mt mem_of_mem_toCString hls.1 (mem_of_mem_splitOn hf hc)
        · exact hvalue
      · intro l hl
        obtain ⟨line', hline', rfl⟩ := List.mem_map.mp hl
        exact isLine_printLine (hls.2 line' hline')
    · exact List.forall_mem_cons.mpr ⟨isLine_printLine hls.1, ih hls.2⟩

/-- The lines of the copy. -/
theorem texts_updateSourcetableField {mountpoint newValue : CString} (hvalue : Plain newValue)
    (targetField : ℕ) (content : List Byte) :
    texts (updateSourcetableField content mountpoint targetField newValue).1 =
      (tagFirst (fun t => HasName mountpoint t) (texts content)).filterMap
        (copyText targetField newValue) := by
  rw [texts, updateSourcetableField, lines_flatten (lined_of_forall
    (isLine_updateSourcetableLines hvalue.2.1 (not_mem_stripEol_lines content)))]
  exact filterMap_updateSourcetableLines hvalue.2.2.2 _

/-- A copy is an entry if the line is. -/
theorem isEntry_copyText {newValue : CString} (hsemicolon : Sourceline.semicolon ∉ newValue)
    {targetField : ℕ} (hpos : 0 < targetField) (x : Bool × CString) :
    ∀ a ∈ copyText targetField newValue x, decide (IsEntry a) = decide (IsEntry x.2) := by
  rintro a ha
  rw [decide_eq_decide]
  rcases x with ⟨- | -, t⟩
  · obtain ⟨-, rfl⟩ := copied_eq_some_iff.mp ha
    exact isEntry_stripEol
  · rw [← Option.some.inj ha, isEntry_stripEol, isEntry_setText hsemicolon hpos]

/-- What each line should become, if the entries with the name get another field. -/
def updatedText (mountpoint : CString) (targetField : ℕ) (newValue text : CString) : CString :=
  if IsEntry text ∧ entryKey text = mountpoint then setText targetField newValue text else text

/-- The entries and the other lines are as they should be if each copy is. -/
theorem entries_others_iff {mountpoint newValue : CString} (hvalue : Plain newValue)
    (hsemicolon : Sourceline.semicolon ∉ newValue) {targetField : ℕ} (hpos : 0 < targetField)
    {content : List Byte} :
    (strEntries (updateSourcetableField content mountpoint targetField newValue).1 =
          setEntries mountpoint targetField newValue (strEntries content) ∧
        otherLines (updateSourcetableField content mountpoint targetField newValue).1 =
          otherLines content) ↔
      ∀ x ∈ tagFirst (fun t => HasName mountpoint t) (texts content),
        copyText targetField newValue x =
          some (updatedText mountpoint targetField newValue x.2) := by
  have hafter := @texts_updateSourcetableField mountpoint newValue hvalue targetField content
  have hbefore := map_snd_tagFirst (fun t => decide (HasName mountpoint t)) (texts content)
  generalize tagFirst (fun t => decide (HasName mountpoint t)) (texts content) = T
    at hafter hbefore ⊢
  have hkind (x : Bool × CString) := isEntry_copyText hsemicolon hpos x
  have hentries : strEntries content = (T.filter fun x => IsEntry x.2).map Prod.snd :=
    (congrArg (List.filter fun t => IsEntry t) hbefore).symm.trans List.filter_map
  have hothers : otherLines content = (T.filter fun x => ¬ IsEntry x.2).map Prod.snd :=
    (congrArg (List.filter fun t => ¬ IsEntry t) hbefore).symm.trans List.filter_map
  have hentries' := filter_copies (fun t => decide (IsEntry t)) fun x (_ : x ∈ T) => hkind x
  have hothers' := filter_copies (fun t => decide ¬ IsEntry t) fun x (_ : x ∈ T) a ha =>
    decide_eq_decide.mpr (not_congr (decide_eq_decide.mp (hkind x a ha)))
  rw [hentries, hothers, setEntries, strEntries, otherLines, hafter, hentries', hothers',
    List.map_map, filterMap_eq_map_iff, filterMap_eq_map_iff]
  constructor
  · rintro ⟨hentry, hother⟩ x hx
    by_cases hkindx : IsEntry x.2
    · have h := hentry x (List.mem_filter.mpr ⟨hx, decide_eq_true hkindx⟩)
      rw [h, updatedText, Function.comp_apply]
      simp only [hkindx, true_and]
    · have h := hother x (List.mem_filter.mpr ⟨hx, decide_eq_true hkindx⟩)
      rw [h, updatedText, if_neg fun h => hkindx h.1]
  · intro h
    refine ⟨fun x hx => ?_, fun x hx => ?_⟩
    · obtain ⟨hx, hkindx⟩ := List.mem_filter.mp hx
      rw [h x hx, updatedText, Function.comp_apply]
      simp only [of_decide_eq_true hkindx, true_and]
    · obtain ⟨hx, hkindx⟩ := List.mem_filter.mp hx
      rw [h x hx, updatedText, if_neg fun h => of_decide_eq_true hkindx h.1]

/-- The end of a line that has none stays so. -/
theorem stripEol_setText_of_clean {newValue : CString} (hvalue : Plain newValue)
    (hsemicolon : Sourceline.semicolon ∉ newValue) {text : CString} (h : stripEol text = text)
    (targetField : ℕ) :
    stripEol (setText targetField newValue text) = setText targetField newValue text := by
  rw [stripEol_eq_self_iff] at h ⊢
  rw [fieldsOf_setText hsemicolon, stripLast_set hvalue.stripEol, h]

theorem ne_nil_of_hasName {mountpoint text : CString} (h : HasName mountpoint text) :
    text ≠ [] := by
  rintro rfl
  exact absurd h.1 (by decide)

section

variable {mountpoint newValue : CString} {targetField : ℕ} {content : List Byte}

theorem clean_of_copies (hsemicolon : Sourceline.semicolon ∉ newValue) (htarget : targetField < 18)
    (hparses : ∀ t ∈ strEntries content, Parses scanFloat t)
    (h : ∀ x ∈ tagFirst (fun t => HasName mountpoint t) (texts content),
      copyText targetField newValue x = some (updatedText mountpoint targetField newValue x.2)) :
    ∀ t ∈ texts content, t ≠ [] ∧ stripEol t = t := by
  intro t ht
  obtain ⟨b, hx⟩ := @exists_mem_tagFirst _ (fun t => decide (HasName mountpoint t)) _ _ ht
  have hcopy := h _ hx
  rw [updatedText] at hcopy
  split at hcopy
  · next hentry =>
    have hparse := hparses t (List.mem_filter.mpr ⟨ht, decide_eq_true hentry.1⟩)
    refine ⟨ne_nil_of_hasName (hasName_of_parses hparse hentry.2), ?_⟩
    have hlt : targetField + 1 < (fieldsOf t).length := by
      rw [hparse.length]
      omega
    rw [← stripEol_setText_iff hsemicolon hlt]
    cases b with
    | false =>
      rw [← (copied_eq_some_iff.mp hcopy).2, stripEol_stripEol]
    | true => exact Option.some.inj hcopy
  · cases b with
    | false => exact copied_eq_some_iff.mp hcopy
    | true =>
      have hstrip : stripEol (setText targetField newValue t) = t := Option.some.inj hcopy
      have hname : HasName mountpoint t :=
        of_decide_eq_true (@of_mem_tagFirst _ (fun t => decide (HasName mountpoint t)) _ _ hx)
      refine ⟨ne_nil_of_hasName hname, ?_⟩
      rw [← hstrip, stripEol_stripEol]

/-- The copies of the lines are what they should be. -/
theorem copies_iff (hvalue : Plain newValue) (hsemicolon : Sourceline.semicolon ∉ newValue)
    (htarget : targetField < 18) (hparses : ∀ t ∈ strEntries content, Parses scanFloat t)
    (hnodup : ((strEntries content).map entryKey).Nodup) :
    (∀ x ∈ tagFirst (fun t => HasName mountpoint t) (texts content),
        copyText targetField newValue x = some (updatedText mountpoint targetField newValue x.2)) ↔
      UpdateSafe content mountpoint targetField newValue := by
  constructor
  · intro h
    have hclean := clean_of_copies hsemicolon htarget hparses h
    refine ⟨hclean, fun m hfirst hother => ?_⟩
    rcases tagFirst_cases (fun t => decide (HasName mountpoint t)) (texts content) with
      ⟨hnone, -⟩ | ⟨pre, m', post, htexts, -, -, hfind, htag⟩
    · exact absurd (hnone.symm.trans hfirst) (Option.some_ne_none m).symm
    · obtain rfl := Option.some.inj (hfind.symm.trans hfirst)
      rw [htag] at h
      rw [htexts] at hclean
      constructor
      · have hm := h (true, m') (List.mem_append_right _ List.mem_cons_self)
        rw [updatedText, if_neg fun h => hother h.1] at hm
        have hm' := (hclean m' (List.mem_append_right _ List.mem_cons_self)).2
        rw [← stripEol_setText_of_clean hvalue hsemicolon hm' targetField]
        exact Option.some.inj hm
      · intro e he hkey
        obtain ⟨he, hentry⟩ := List.mem_filter.mp he
        rw [htexts] at he
        have hentry := of_decide_eq_true hentry
        have hmem : (false, e) ∈
            pre.map (Prod.mk false) ++ (true, m') :: post.map (Prod.mk false) := by
          rcases List.mem_append.mp he with he | he
          · exact List.mem_append_left _ (List.mem_map_of_mem he)
          · rcases List.mem_cons.mp he with rfl | he
            · exact absurd hentry hother
            · exact List.mem_append_right _ (List.mem_cons_of_mem _ (List.mem_map_of_mem he))
        have hcopy := h _ hmem
        rw [updatedText, if_pos ⟨hentry, hkey⟩] at hcopy
        exact (copied_eq_some_iff.mp hcopy).2.symm.trans (hclean e he).2
  · rintro ⟨hclean, hfirst⟩
    have hname {t : CString} (ht : t ∈ texts content) (hentry : IsEntry t)
        (hkey : entryKey t = mountpoint) : decide (HasName mountpoint t) = true :=
      decide_eq_true (hasName_of_parses
        (hparses t (List.mem_filter.mpr ⟨ht, decide_eq_true hentry⟩)) hkey)
    -- a line that is not the first with the name
    have hplain {t : CString} (ht : t ∈ texts content)
        (hsame : IsEntry t → entryKey t = mountpoint → setText targetField newValue t = t) :
        copied t = some (updatedText mountpoint targetField newValue t) := by
      have hupdated : updatedText mountpoint targetField newValue t = t := by
        rw [updatedText]
        split
        · next h => exact hsame h.1 h.2
        · rfl
      rw [hupdated]
      exact copied_eq_some_iff.mpr (hclean t ht)
    rcases tagFirst_cases (fun t => decide (HasName mountpoint t)) (texts content) with
      ⟨hnone, htag⟩ | ⟨pre, m, post, htexts, hpre, hm, hfind, htag⟩
    · intro x hx
      rw [htag] at hx
      obtain ⟨t, ht, rfl⟩ := List.mem_map.mp hx
      refine hplain ht fun hentry hkey => ?_
      exact absurd (hname ht hentry hkey) (List.find?_eq_none.mp hnone t ht)
    · have hmem : m ∈ texts content := by
        rw [htexts]
        exact List.mem_append_right _ List.mem_cons_self
      have hmname := (of_decide_eq_true hm : HasName mountpoint m)
      intro x hx
      rw [htag] at hx
      rcases List.mem_append.mp hx with hx | hx
      · obtain ⟨t, ht, rfl⟩ := List.mem_map.mp hx
        have ht' : t ∈ texts content := by
          rw [htexts]
          exact List.mem_append_left _ ht
        exact hplain ht' fun hentry hkey => absurd (hname ht' hentry hkey) (hpre t ht)
      · rcases List.mem_cons.mp hx with rfl | hx
        · by_cases hmentry : IsEntry m
          · rw [updatedText, if_pos ⟨hmentry, hmname.2⟩]
            exact congrArg some
              (stripEol_setText_of_clean hvalue hsemicolon (hclean m hmem).2 targetField)
          · rw [updatedText, if_neg fun h => hmentry h.1, copyText, if_pos rfl,
              (hfirst m hfind hmentry).1, (hclean m hmem).2]
        · obtain ⟨t, ht, rfl⟩ := List.mem_map.mp hx
          have ht' : t ∈ texts content := by
            rw [htexts]
            exact List.mem_append_right _ (List.mem_cons_of_mem _ ht)
          refine hplain ht' fun hentry hkey => ?_
          by_cases hmentry : IsEntry m
          · -- two entries with one name
            rw [strEntries, htexts, List.filter_append, List.map_append, List.filter_cons,
              if_pos (decide_eq_true hmentry), List.map_cons] at hnodup
            refine absurd ?_ (List.nodup_cons.mp (List.nodup_append.mp hnodup).2.1).1
            rw [hmname.2, ← hkey]
            exact List.mem_map_of_mem (List.mem_filter.mpr ⟨ht, decide_eq_true hentry⟩)
          · exact (hfirst m hfind hmentry).2 t
              (List.mem_filter.mpr ⟨ht', decide_eq_true hentry⟩) hkey

end

/-- **When setting a field touches only the entry.** -/
theorem updated_iff {mountpoint newValue : CString} (hvalue : Plain newValue)
    (hsemicolon : Sourceline.semicolon ∉ newValue) {targetField : ℕ}
    (htarget : 1 < targetField ∧ targetField < 18)
    (hscan : targetField = 9 ∨ targetField = 10 → (scanFloat newValue).isSome = true)
    {content : List Byte} (hparses : ∀ t ∈ strEntries content, Parses scanFloat t)
    (hnodup : ((strEntries content).map entryKey).Nodup) :
    SourcetableEdited scanFloat content
        (updateSourcetableField content mountpoint targetField newValue).1
        (setEntries mountpoint targetField newValue) ↔
      UpdateSafe content mountpoint targetField newValue := by
  rw [← copies_iff hvalue hsemicolon htarget.2 hparses hnodup,
    ← entries_others_iff hvalue hsemicolon (by omega)]
  refine ⟨fun h => ⟨h.entries, h.others⟩, fun h => ⟨fun filename priority => ?_, h.1, h.2⟩⟩
  rw [read_isSome_iff, h.1, setEntries]
  constructor
  · intro t ht
    obtain ⟨e, he, rfl⟩ := List.mem_map.mp ht
    split
    · exact parses_setText hsemicolon hscan (hparses e he)
    · exact hparses e he
  · have hkeys : entryKey ∘ (fun t => if entryKey t = mountpoint then
        setText targetField newValue t else t) = entryKey := by
      funext t
      rw [Function.comp_apply]
      split
      · exact entryKey_setText hsemicolon htarget.1 t
      · rfl
    rwa [List.map_map, hkeys]

/-! ### A mountpoint is removed -/

/-- Whether a field is in a line does not depend on how the line ends. -/
theorem hasField_stripEol {sep : Byte} (hsep : ¬ (sep = LF ∨ sep = CR)) {i : ℕ} {value : CString}
    {line : List Byte} :
    HasField sep i value (stripEol line) ↔ HasField sep i value line := by
  by_cases hnul : (0 : Byte) ∈ line
  · obtain ⟨a, r, rfl, ha⟩ := List.eq_append_cons_of_mem hnul
    rw [stripEol_append_cons (by decide), HasField, HasField, colonFields, colonFields,
      toCString_append_nul ha, toCString_append_nul ha]
  · rw [HasField, HasField, colonFields, colonFields, toCString_of_not_mem hnul,
      toCString_of_not_mem (mt mem_of_mem_stripEol hnul), splitOn_stripEol hsep, length_stripLast]
    refine and_congr_right fun hlength => ?_
    change field _ i = value ↔ field _ i = value
    rw [field_stripLast hlength]

theorem eq_lineText_of_readText {line : List Byte} {t : CString} (h : readText line = some t) :
    t = lineText line := by
  rw [readText] at h
  split at h
  · contradiction
  · exact (Option.some.inj h).symm

theorem texts_removeMatchingLines (mountpoint : CString) (content : List Byte) :
    texts (removeMatchingLines content Sourceline.semicolon 1 mountpoint).1 =
      (texts content).filter fun t => ¬ HasName mountpoint t := by
  rw [texts, texts, removeMatchingLines, lines_flatten ((lined_lines content).filter _),
    List.filterMap_filter, List.filter_filterMap]
  refine List.filterMap_congr fun line _ => ?_
  cases hread : readText line with
  | none => exact ite_self none
  | some t =>
    have hname : (decide ¬ HasField Sourceline.semicolon 1 mountpoint line) =
        decide ¬ HasName mountpoint t := by
      rw [decide_eq_decide, eq_lineText_of_readText hread, ← hasField_iff_hasName,
        hasField_stripEol (by decide)]
    rw [Option.filter_some, hname]

/-- **When removing a mountpoint touches only the entry.** No other line has its name. -/
theorem removed_iff {mountpoint : CString} {content : List Byte}
    (hparses : ∀ t ∈ strEntries content, Parses scanFloat t)
    (hnodup : ((strEntries content).map entryKey).Nodup) :
    SourcetableEdited scanFloat content
        (removeMatchingLines content Sourceline.semicolon 1 mountpoint).1
        (fun entries => entries.filter fun t => entryKey t ≠ mountpoint) ↔
      ∀ t ∈ otherLines content, ¬ HasName mountpoint t := by
  have hcomm (p : CString → Bool) : (texts (removeMatchingLines content Sourceline.semicolon 1
      mountpoint).1).filter p =
        ((texts content).filter p).filter fun t => ¬ HasName mountpoint t := by
    rw [texts_removeMatchingLines, List.filter_comm]
  have hentries : strEntries (removeMatchingLines content Sourceline.semicolon 1 mountpoint).1 =
      (strEntries content).filter fun t => entryKey t ≠ mountpoint := by
    rw [strEntries, hcomm]
    refine List.filter_congr fun t ht => ?_
    rw [decide_eq_decide]
    exact not_congr ⟨fun h => h.2, fun h => hasName_of_parses (hparses t ht) h⟩
  have hothers : otherLines (removeMatchingLines content Sourceline.semicolon 1 mountpoint).1 =
      (otherLines content).filter fun t => ¬ HasName mountpoint t := by
    rw [otherLines, hcomm]
    rfl
  constructor
  · intro h t ht
    have hall := h.others
    rw [hothers, List.filter_eq_self] at hall
    exact of_decide_eq_true (hall t ht)
  · intro h
    refine ⟨fun filename priority => ?_, hentries, ?_⟩
    · rw [read_isSome_iff, hentries]
      exact ⟨fun t ht => hparses t (List.mem_filter.mp ht).1,
        (List.filter_sublist.map entryKey).nodup hnodup⟩
    · rw [hothers, List.filter_eq_self]
      exact fun t ht => decide_eq_true (h t ht)

/-! ### A mountpoint is added -/

theorem lineText_prefix (line : List Byte) : lineText line <+: line :=
  (List.takeWhile_prefix _).trans (List.rdropWhile_prefix _ line)

theorem length_texts (content : List Byte) :
    (texts content).length = (strEntries content).length + (otherLines content).length := by
  have hnot : (otherLines content) = (texts content).filter fun t => !decide (IsEntry t) := by
    rw [otherLines]
    refine List.filter_congr fun t _ => ?_
    rw [decide_not]
  rw [hnot, strEntries]
  exact List.length_eq_length_filter_add _

theorem filterMap_concat (f : List Byte → Option CString) (ls : List (List Byte))
    (line : List Byte) :
    (ls ++ [line]).filterMap f = ls.filterMap f ++ (f line).toList := by
  rw [List.filterMap_append]
  rfl

/-- What is added to a line without a newline is not a line of its own. -/
theorem not_added_of_not_terminated {content : List Byte} (hcontent : ¬ Terminated LF content)
    {text : CString} (hentry : IsEntry text) (hnl : LF ∉ text)
    (hentries : strEntries (content ++ (text ++ [LF])) = strEntries content ++ [text])
    (hothers : otherLines (content ++ (text ++ [LF])) = otherLines content) : False := by
  obtain ⟨a, b, rfl, ha, hb, hbnl⟩ := exists_of_not_terminated hcontent
  have hline : IsLine LF (b ++ (text ++ [LF])) :=
    ⟨b ++ text, by rw [List.mem_append, not_or]; exact ⟨hbnl, hnl⟩, (List.append_assoc _ _ _).symm⟩
  have hbefore : texts (a ++ b) = texts a ++ (readText b).toList := by
    rw [texts, lines_append ha, lines_last hb hbnl, filterMap_concat]
    rfl
  have hafter : texts (a ++ b ++ (text ++ [LF])) =
      texts a ++ (readText (b ++ (text ++ [LF]))).toList := by
    have hlast : lines LF (b ++ (text ++ [LF])) = [b ++ (text ++ [LF])] := by
      have hlines := lines_line_append hline []
      rwa [List.append_nil] at hlines
    rw [texts, List.append_assoc, lines_append ha, hlast, filterMap_concat]
    rfl
  have hlength := length_texts (a ++ b ++ (text ++ [LF]))
  rw [hentries, hothers, List.length_append, Nat.add_right_comm, ← length_texts, hbefore, hafter,
    List.length_append, List.length_append] at hlength
  cases hread : readText b with
  | some t =>
    rw [hread] at hlength
    cases hread' : readText (b ++ (text ++ [LF])) with
    | none =>
      rw [hread'] at hlength
      simp only [Option.toList_some, Option.toList_none, List.length_singleton, List.length_nil]
        at hlength
      omega
    | some u =>
      rw [hread'] at hlength
      simp only [Option.toList_some, List.length_singleton] at hlength
      omega
  | none =>
    cases hread' : readText (b ++ (text ++ [LF])) with
    | none =>
      rw [hread, hread'] at hlength
      simp only [Option.toList_none, List.length_singleton, List.length_nil] at hlength
      omega
    | some u =>
      have hu : u = text := by
        rw [strEntries, strEntries, hbefore, hafter, hread, hread', List.filter_append,
          Option.toList_none, List.append_nil] at hentries
        have hlast := List.append_cancel_left hentries
        have hmem : text ∈ [u].filter fun t => IsEntry t := by
          change text ∈ (some u).toList.filter fun t => IsEntry t
          rw [hlast]
          exact List.mem_singleton_self text
        exact (List.mem_singleton.mp (List.mem_filter.mp hmem).1).symm
      obtain ⟨c, b, rfl⟩ := List.exists_cons_of_ne_nil hb
      have htext : text = 0x53 :: (cstr "TR;" ++ text.drop 4) := by
        conv_lhs => rw [← List.take_append_drop 4 text, hentry]
        rfl
      have hprefix := lineText_prefix (c :: b ++ (text ++ [LF]))
      rw [← eq_lineText_of_readText hread', hu, htext, List.cons_append,
        List.cons_prefix_cons] at hprefix
      have hstrip : stripEol (c :: b) = c :: stripEol b :=
        stripEol_append_cons (by rw [← hprefix.1]; decide) [] b
      rw [readText, hstrip, if_neg (List.cons_ne_nil c _)] at hread
      contradiction

/-- **When adding a mountpoint adds its entry.** The file is empty or ends with a newline, and has
no entry with the name. -/
theorem added_iff {fields : List CString} (hlength : fields.length = 19)
    (hplain : ∀ f ∈ fields, Plain f ∧ Sourceline.semicolon ∉ f)
    (hmark : field fields 0 = cstr "STR") (hlat : (scanFloat (field fields 9)).isSome = true)
    (hlon : (scanFloat (field fields 10)).isSome = true) {content : List Byte}
    (hparses : ∀ t ∈ strEntries content, Parses scanFloat t)
    (hnodup : ((strEntries content).map entryKey).Nodup) :
    SourcetableEdited scanFloat content
        (content ++ ([Sourceline.semicolon].intercalate fields ++ [LF]))
        (fun entries => entries ++ [[Sourceline.semicolon].intercalate fields]) ↔
      Terminated LF content ∧ ∀ t ∈ strEntries content, entryKey t ≠ field fields 1 := by
  have hne : fields ≠ [] := by
    rintro rfl
    contradiction
  have hfields : fieldsOf ([Sourceline.semicolon].intercalate fields) = fields :=
    List.splitOn_intercalate _ (fun f hf => (hplain f hf).2) hne
  have hentry : IsEntry ([Sourceline.semicolon].intercalate fields) := by
    rw [isEntry_iff, hfields, hlength]
    exact ⟨by decide, hmark⟩
  have hparse : Parses scanFloat ([Sourceline.semicolon].intercalate fields) :=
    ⟨by rw [hfields, hlength], by rwa [hfields], by rwa [hfields]⟩
  have hkey : entryKey ([Sourceline.semicolon].intercalate fields) = field fields 1 := by
    rw [entryKey, hfields]
  have hnl : LF ∉ [Sourceline.semicolon].intercalate fields :=
    not_mem_joined (by decide) fun f hf => (hplain f hf).1.2.1
  have hnul : (0 : Byte) ∉ [Sourceline.semicolon].intercalate fields :=
    not_mem_joined (by decide) fun f hf => (hplain f hf).1.2.2.2
  have hread : readText ([Sourceline.semicolon].intercalate fields ++ [LF]) =
      some ([Sourceline.semicolon].intercalate fields) := by
    have hstrip : stripEol ([Sourceline.semicolon].intercalate fields) =
        [Sourceline.semicolon].intercalate fields := by
      rw [stripEol_intercalate (by decide) hne, stripLast_of_plain fun f hf => (hplain f hf).1]
    rw [readText_append_lf, readText, lineText_of_not_mem hnul, hstrip]
    exact if_neg (intercalate_ne_nil (by rw [hlength]; decide))
  constructor
  · intro h
    refine ⟨by_contra fun hnot => not_added_of_not_terminated hnot hentry hnl h.entries h.others,
      fun t ht hname => ?_⟩
    have hkeys := ((read_isSome_iff [] _ 0).mp (h.accepted [] 0)).2
    rw [h.entries, List.map_append, List.map_singleton, hkey] at hkeys
    refine List.disjoint_of_nodup_append hkeys (List.mem_map_of_mem ht) ?_
    rw [hname]
    exact List.mem_singleton_self _
  · rintro ⟨hterminated, hnew⟩
    have htexts : texts (content ++ ([Sourceline.semicolon].intercalate fields ++ [LF])) =
        texts content ++ [[Sourceline.semicolon].intercalate fields] := by
      have hlines : lines LF ([Sourceline.semicolon].intercalate fields ++ [LF]) =
          [[Sourceline.semicolon].intercalate fields ++ [LF]] := by
        have happend := lines_line_append ⟨_, hnl, rfl⟩ []
        rwa [List.append_nil] at happend
      rw [texts, lines_append hterminated, hlines, filterMap_concat, hread]
      rfl
    have hentries : strEntries (content ++ ([Sourceline.semicolon].intercalate fields ++ [LF])) =
        strEntries content ++ [[Sourceline.semicolon].intercalate fields] := by
      rw [strEntries, htexts, List.filter_append]
      exact congrArg _ (List.filter_cons_of_pos (decide_eq_true hentry))
    refine ⟨fun filename priority => ?_, hentries, ?_⟩
    · rw [read_isSome_iff, hentries, List.map_append, List.map_singleton, hkey]
      refine ⟨List.forall_mem_append.mpr ⟨hparses, List.forall_mem_singleton.mpr hparse⟩,
        List.Nodup.append hnodup (List.nodup_singleton _) (List.disjoint_singleton.mpr ?_)⟩
      intro hmem
      obtain ⟨t, ht, hname⟩ := List.mem_map.mp hmem
      exact hnew t ht hname
    · rw [otherLines, htexts, List.filter_append]
      have hnone :
          ([[Sourceline.semicolon].intercalate fields].filter fun t => ¬ IsEntry t) = [] := by
        rw [List.filter_cons, if_neg (by rw [decide_eq_true_iff]; exact fun h => h hentry)]
        rfl
      rw [hnone, List.append_nil]
      rfl

end

end ChilopodCaster
