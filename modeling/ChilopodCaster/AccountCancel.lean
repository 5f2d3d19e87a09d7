import ChilopodCaster.AccountEdits

/-!
# Edits that cancel out

The account files are edited one edit after the other, and what was done before a refusal stays. The
files are as before exactly if the edits cancel out, which is said here of each file by itself: as
operations on rows the edits give back the rows that there were, and the lines that they write again
were in the form in which they write them.

## Main definitions

* `FileEdit.onRows` — an edit as an operation on rows
* `FileEdit.CancelOut` — the edits of one file cancel out
* `AccountEdit.CancelOut` — those of all files

## Main results

* `FileEdit.foldl_effect_eq_iff` — when edits give back the content of a file
* `AccountEdit.after_effect_eq_iff` — when they give back the files
-/

namespace ChilopodCaster

open Lines

/-- Two lists with the same keys, and the same elements where the keys do not determine them. -/
theorem eq_of_map_eq {α β : Type} {f : α → β} {p : β → Bool} {l l' : List α}
    (hmap : l.map f = l'.map f) (hfilter : l.filter (p ∘ f) = l'.filter (p ∘ f))
    (hkey : ∀ a ∈ l, ∀ b ∈ l', p (f a) = false → f a = f b → a = b) : l = l' := by
  induction l generalizing l' with
  | nil => exact (List.map_eq_nil_iff.mp hmap.symm).symm
  | cons a l ih =>
    cases l' with
    | nil => contradiction
    | cons b l' =>
      obtain ⟨hhead, htail⟩ := List.cons.inj hmap
      have hrest := fun a ha b hb =>
        hkey a (List.mem_cons_of_mem _ ha) b (List.mem_cons_of_mem _ hb)
      cases hp : p (f a) with
      | true =>
        have ha : (p ∘ f) a = true := hp
        have hb : (p ∘ f) b = true := (congrArg p hhead).symm.trans hp
        rw [List.filter_cons_of_pos ha, List.filter_cons_of_pos hb] at hfilter
        obtain ⟨rfl, hfilters⟩ := List.cons.inj hfilter
        rw [ih htail hfilters hrest]
      | false =>
        obtain rfl := hkey a List.mem_cons_self b List.mem_cons_self hp hhead
        have hnot : ¬ (p ∘ f) a = true := by
          rw [Function.comp_apply, hp]
          decide
        rw [List.filter_cons_of_neg hnot, List.filter_cons_of_neg hnot] at hfilter
        rw [ih htail hfilter hrest]

/-! ### Edits as operations on rows -/

/-- One field of the first row with a key is set. -/
def setRow (key : CString) (targetField : ℕ) (newValue : CString) :
    List (List CString) → List (List CString)
  | [] => []
  | r :: rest =>
    if HasKey key r then r.set targetField newValue :: rest
    else r :: setRow key targetField newValue rest

theorem setRow_append_cons {key newValue : CString} {targetField : ℕ}
    {first rest : List (List CString)} {r : List CString} (hfirst : ∀ r' ∈ first, ¬ HasKey key r')
    (hr : HasKey key r) : setRow key targetField newValue (first ++ r :: rest) =
      first ++ r.set targetField newValue :: rest := by
  induction first with
  | nil => exact if_pos hr
  | cons r' first ih =>
    rw [List.forall_mem_cons] at hfirst
    rw [List.cons_append, setRow, if_neg hfirst.1, ih hfirst.2, List.cons_append]

namespace FileEdit

/-- An edit as an operation on rows. -/
def onRows (rs : List (List CString)) : FileEdit → List (List CString)
  | append fields => rs ++ [fields]
  | drop key => rs.filter fun r => ¬ HasKey key r
  | remove key => rs.filter fun r => ¬ HasKey key r
  | setField key targetField newValue => setRow key targetField newValue rs

/-- The lines with such a row are left out by the edit, or written again. -/
def Rewrites (r : List CString) : FileEdit → Prop
  | append _ => False
  | drop key => HasKey key r
  | remove key => HasKey key r
  | setField _ _ _ => True

/-- The edits of a file cancel out: as operations on rows they do, and the file has the form in
which they write it. It ends with a newline if a row is added, and the lines that are left out or
written again are fields between colons and a newline. -/
structure CancelOut (edits : List FileEdit) (content : List Byte) : Prop where
  rows : edits.foldl onRows (rows content) = rows content
  terminated : ∀ fields, append fields ∈ edits → Terminated LF content
  printed : ∀ edit ∈ edits, ∀ line ∈ lines LF content, edit.Rewrites (row line) →
    printLine line = line

/-- The line that an edit is about is there. -/
def Finds (content : List Byte) : FileEdit → Prop
  | setField key targetField newValue =>
    (setColonFileField content colon key targetField newValue).isSome
  | _ => True

/-- The edits find their lines, one after the other. -/
def FindInTurn : List FileEdit → List Byte → Prop
  | [], _ => True
  | e :: edits, content => e.Finds content ∧ FindInTurn edits (e.effect content)

/-! ### Edits line by line -/

/-- The line with these fields. -/
abbrev joined (fields : List CString) : List Byte := [colon].intercalate fields ++ [LF]

/-- What an edit makes of the lines of a file that ends with a newline. -/
def onLines (ls : List (List Byte)) : FileEdit → List (List Byte)
  | append fields => ls ++ [joined fields]
  | drop key => ls.filter fun line => ¬ HasField colon 0 key line
  | remove key => ls.filter fun line => ¬ HasField colon 0 key line
  | setField key targetField newValue => (setColonLines colon key targetField newValue ls).1

variable {e : FileEdit} {edits : List FileEdit} {content : List Byte} {ls : List (List Byte)}

theorem isLine_joined {fields : List CString} (h : ∀ field ∈ fields, ChilopodCaster.Plain field) :
    IsLine LF (joined fields) :=
  ⟨_, not_mem_joined (by decide) fun field hfield => (h field hfield).2.1, rfl⟩

/-- A line is found among the lines. -/
theorem exists_setColonLines {key newValue : CString} {targetField : ℕ}
    (h : (setField key targetField newValue).Finds content) :
    (setColonLines colon key targetField newValue (lines LF content)).2 = true ∧
      (setField key targetField newValue).effect content =
        ((setField key targetField newValue).onLines (lines LF content)).flatten := by
  rw [Finds, setColonFileField] at h
  rw [effect, setColonFileField, onLines]
  split at h
  · next hupdated =>
    rw [if_pos hupdated]
    exact ⟨hupdated, rfl⟩
  · contradiction

/-- **An edit, line by line.** -/
theorem lines_effect (hplain : e.Plain) (hfinds : e.Finds content)
    (hterminated : ∀ fields, e = append fields → Terminated LF content) :
    lines LF (e.effect content) = e.onLines (lines LF content) := by
  cases e with
  | append fields =>
    have hline : lines LF (joined fields) = [joined fields] := by
      have happend := lines_line_append (isLine_joined hplain.2) []
      rwa [List.append_nil] at happend
    rw [effect, lines_append (hterminated fields rfl), hline, onLines]
  | drop key => exact lines_flatten ((lined_lines content).filter _)
  | remove key => exact lines_flatten ((lined_lines content).filter _)
  | setField key targetField newValue =>
    obtain ⟨hupdated, heffect⟩ := exists_setColonLines hfinds
    rw [heffect]
    exact lines_flatten (lined_of_forall
      (setColonLines_spec hplain targetField (not_mem_stripEol_lines content) hupdated).1)

/-- **An edit, row by row.** -/
theorem map_row_effect (hplain : e.Plain) (hfinds : e.Finds content)
    (hterminated : ∀ fields, e = append fields → Terminated LF content) :
    rows (e.effect content) = e.onRows (rows content) := by
  cases e with
  | append fields => exact (append_made_iff hplain content).mpr (hterminated fields rfl)
  | drop key => exact rows_removeMatchingLines content key
  | remove key => exact rows_removeMatchingLines content key
  | setField key targetField newValue =>
    obtain ⟨hupdated, heffect⟩ := exists_setColonLines hfinds
    obtain ⟨hlines, first, r, rest, hrows, hfirst, hkey, hset⟩ :=
      setColonLines_spec hplain targetField (not_mem_stripEol_lines content) hupdated
    rw [heffect, onLines, rows_flatten hlines, hset, onRows, rows, hrows,
      setRow_append_cons hfirst hkey]

theorem terminated_iff_forall : Terminated LF content ↔ ∀ l ∈ lines LF content, IsLine LF l := by
  have hlined : Lined LF (lines LF content) := lined_lines content
  have h := terminated_flatten_iff hlined
  rwa [flatten_lines] at h

/-- A file that ends with a newline still does. -/
theorem terminated_effect (hplain : e.Plain) (hfinds : e.Finds content)
    (h : Terminated LF content) : Terminated LF (e.effect content) := by
  rw [terminated_iff_forall] at h ⊢
  rw [lines_effect hplain hfinds fun _ _ => terminated_iff_forall.mpr h]
  cases e with
  | append fields =>
    rw [onLines, List.forall_mem_append, List.forall_mem_singleton]
    exact ⟨h, isLine_joined hplain.2⟩
  | drop key => exact fun l hl => h l (List.mem_filter.mp hl).1
  | remove key => exact fun l hl => h l (List.mem_filter.mp hl).1
  | setField key targetField newValue =>
    exact (setColonLines_spec hplain targetField (not_mem_stripEol_lines content)
      (exists_setColonLines hfinds).1).1

/-! ### Lines that are written again -/

theorem nul_not_mem_printLine (line : List Byte) : 0 ∉ printLine line := by
  rw [printLine, List.mem_append, not_or]
  exact ⟨not_mem_toCString _, by decide⟩

/-- Copying a line once more changes nothing, if it has no NUL. -/
theorem printLine_printLine {line : List Byte} (h : 0 ∉ line) :
    printLine (printLine line) = printLine line := by
  have hstrip : toCString (stripEol line) = stripEol line :=
    toCString_of_not_mem (mt mem_of_mem_stripEol h)
  rw [printLine, printLine, hstrip, stripEol_append_lf, stripEol_stripEol, hstrip]

/-- The line with these fields is as a copy of it. -/
theorem printLine_joined {fields : List CString} (hne : fields ≠ [])
    (hstrip : stripLast fields = fields) (hnul : ∀ field ∈ fields, 0 ∉ field) :
    printLine (joined fields) = joined fields := by
  rw [printLine, stripEol_append_lf, stripEol_intercalate (by decide) hne, hstrip,
    toCString_of_not_mem (not_mem_joined (by decide) hnul)]

/-- A line that is as its copy is determined by its row. -/
theorem eq_joined_row {line : List Byte} (h : printLine line = line) :
    line = joined (row line) := by
  have hnul : 0 ∉ line := h ▸ nul_not_mem_printLine line
  have hstrip : toCString (stripEol line) = stripEol line :=
    toCString_of_not_mem (mt mem_of_mem_stripEol hnul)
  rw [row, toCString_of_not_mem hnul, joined, List.intercalate_splitOn, ← hstrip]
  exact h.symm

/-- A line in the copy with one field set. -/
theorem mem_setColonLines {key newValue : CString} (hvalue : ChilopodCaster.Plain newValue)
    (targetField : ℕ) {line : List Byte}
    (hline : line ∈ (setColonLines colon key targetField newValue ls).1) :
    0 ∉ line ∧ ((∀ l ∈ ls, 0 ∉ l) → printLine line = line) := by
  induction ls with
  | nil => exact absurd hline List.not_mem_nil
  | cons l ls ih =>
    rw [setColonLines] at hline
    split at hline
    · rcases List.mem_cons.mp hline with rfl | hline
      · have hfields : ∀ field ∈ (colonFields colon (stripEol l)).set targetField newValue,
            0 ∉ field := by
          intro field hfield
          rcases List.mem_or_eq_of_mem_set hfield with hfield | rfl
          · exact fun h => not_mem_toCString _ (mem_of_mem_splitOn hfield h)
          · exact hvalue.2.2.2
        refine ⟨?_, fun hnul => printLine_joined ?_ ?_ hfields⟩
        · rw [List.mem_append, not_or]
          exact ⟨not_mem_joined (by decide) hfields, by decide⟩
        · rw [ne_eq, List.set_eq_nil_iff]
          exact List.splitOn_ne_nil _ _
        · have hstrip : toCString (stripEol l) = stripEol l := toCString_of_not_mem
            (mt mem_of_mem_stripEol (hnul l List.mem_cons_self))
          rw [stripLast_set hvalue.stripEol, colonFields, hstrip, ← splitOn_stripEol (by decide),
            stripEol_stripEol]
      · obtain ⟨l', hl', rfl⟩ := List.mem_map.mp hline
        exact ⟨nul_not_mem_printLine l',
          fun hnul => printLine_printLine (hnul l' (List.mem_cons_of_mem l hl'))⟩
    · rcases List.mem_cons.mp hline with rfl | hline
      · exact ⟨nul_not_mem_printLine l, fun hnul => printLine_printLine (hnul l List.mem_cons_self)⟩
      · exact (ih hline).imp_right fun h hnul =>
          h fun l' hl' => hnul l' (List.mem_cons_of_mem l hl')

/-- The edit writes every line again. -/
def Copies (e : FileEdit) : Prop := ∀ r, e.Rewrites r

/-- A line after an edit is an old one, or one that the edit has written. -/
theorem mem_onLines (hplain : e.Plain) {line : List Byte} (hline : line ∈ e.onLines ls) :
    (line ∈ ls ∧ ¬ e.Rewrites (row line)) ∨
      0 ∉ line ∧ ((e.Copies → ∀ l ∈ ls, 0 ∉ l) → printLine line = line) := by
  have hfilter {key : CString} (h : line ∈ ls.filter fun line => ¬ HasField colon 0 key line) :
      line ∈ ls ∧ ¬ HasKey key (row line) := by
    obtain ⟨hmem, hkey⟩ := List.mem_filter.mp h
    rw [decide_eq_true_iff, hasField_iff] at hkey
    exact ⟨hmem, hkey⟩
  cases e with
  | append fields =>
    rcases List.mem_append.mp hline with hline | hline
    · exact .inl ⟨hline, id⟩
    · obtain rfl := List.mem_singleton.mp hline
      have hnul : ∀ field ∈ fields, 0 ∉ field := fun field hfield =>
        (hplain.2 field hfield).2.2.2
      refine .inr ⟨?_, fun _ => printLine_joined hplain.1 (stripLast_of_plain hplain.2) hnul⟩
      rw [List.mem_append, not_or]
      exact ⟨not_mem_joined (by decide) hnul, by decide⟩
  | drop key => exact .inl (hfilter hline)
  | remove key => exact .inl (hfilter hline)
  | setField key targetField newValue =>
    exact .inr ((mem_setColonLines hplain targetField hline).imp_right fun h hnul =>
      h (hnul fun _ => trivial))

/-! ### Edits one after the other -/

theorem terminated_foldl (hplain : ∀ e ∈ edits, e.Plain) (hfind : FindInTurn edits content)
    (h : Terminated LF content) : Terminated LF (edits.foldl effect content) := by
  induction edits generalizing content with
  | nil => exact h
  | cons e edits ih =>
    rw [List.forall_mem_cons] at hplain
    exact ih hplain.2 hfind.2 (terminated_effect hplain.1 hfind.1 h)

/-- Once a row is added, the file ends with a newline. -/
theorem terminated_foldl_of_append (hplain : ∀ e ∈ edits, e.Plain)
    (hfind : FindInTurn edits content) {fields : List CString} (hmem : append fields ∈ edits) :
    Terminated LF (edits.foldl effect content) := by
  induction edits generalizing content with
  | nil => exact absurd hmem List.not_mem_nil
  | cons e edits ih =>
    rw [List.forall_mem_cons] at hplain
    rcases List.mem_cons.mp hmem with rfl | hmem
    · have hline : Terminated LF ((append fields).effect content) := by
        intro c hc
        rw [effect, ← List.append_assoc, List.getLast?_concat] at hc
        exact (Option.some.inj hc).symm
      rw [List.foldl_cons]
      exact terminated_foldl hplain.2 hfind.2 hline
    · exact ih hplain.2 hfind.2 hmem

section Terminated

variable (hplain : ∀ e ∈ edits, e.Plain) (hfind : FindInTurn edits content)
  (hterminated : ∀ fields, append fields ∈ edits → Terminated LF content)
include hplain hfind hterminated

theorem lines_foldl :
    lines LF (edits.foldl effect content) = edits.foldl onLines (lines LF content) := by
  induction edits generalizing content with
  | nil => rfl
  | cons e edits ih =>
    rw [List.forall_mem_cons] at hplain
    have hlines := lines_effect hplain.1 hfind.1 fun fields heq =>
      hterminated fields (heq ▸ List.mem_cons_self)
    rw [List.foldl_cons, List.foldl_cons, ← hlines]
    exact ih hplain.2 hfind.2 fun fields hmem => terminated_effect hplain.1 hfind.1
      (hterminated fields (List.mem_cons_of_mem e hmem))

theorem rows_foldl : rows (edits.foldl effect content) = edits.foldl onRows (rows content) := by
  induction edits generalizing content with
  | nil => rfl
  | cons e edits ih =>
    rw [List.forall_mem_cons] at hplain
    have hrows := map_row_effect hplain.1 hfind.1 fun fields heq =>
      hterminated fields (heq ▸ List.mem_cons_self)
    rw [List.foldl_cons, List.foldl_cons, ← hrows]
    exact ih hplain.2 hfind.2 fun fields hmem => terminated_effect hplain.1 hfind.1
      (hterminated fields (List.mem_cons_of_mem e hmem))

end Terminated

theorem mem_foldl_onLines (hplain : ∀ e ∈ edits, e.Plain) {line : List Byte}
    (hline : line ∈ edits.foldl onLines ls) :
    (line ∈ ls ∧ ∀ e ∈ edits, ¬ e.Rewrites (row line)) ∨ 0 ∉ line := by
  induction edits generalizing ls with
  | nil => exact .inl ⟨hline, fun e he => absurd he List.not_mem_nil⟩
  | cons e edits ih =>
    rw [List.forall_mem_cons] at hplain ⊢
    rcases ih hplain.2 hline with ⟨hmem, hnot⟩ | hnul
    · exact (mem_onLines hplain.1 hmem).imp (fun h => ⟨h.1, h.2, hnot⟩) And.left
    · exact .inr hnul

/-- A line after some edits is an old one that none of them writes again, or it is as its copy. -/
theorem mem_foldl_onLines_printed (hplain : ∀ e ∈ edits, e.Plain)
    (hnul : (∃ e ∈ edits, e.Copies) → ∀ l ∈ ls, 0 ∉ l) {line : List Byte}
    (hline : line ∈ edits.foldl onLines ls) :
    (line ∈ ls ∧ ∀ e ∈ edits, ¬ e.Rewrites (row line)) ∨ printLine line = line := by
  induction edits generalizing ls with
  | nil => exact .inl ⟨hline, fun e he => absurd he List.not_mem_nil⟩
  | cons e edits ih =>
    rw [List.forall_mem_cons] at hplain ⊢
    have hrest : (∃ e ∈ edits, e.Copies) → ∀ l ∈ e.onLines ls, 0 ∉ l := by
      rintro ⟨e', he', hcopies⟩ l hl
      rcases mem_onLines hplain.1 hl with ⟨hmem, -⟩ | ⟨hl, -⟩
      · exact hnul ⟨e', List.mem_cons_of_mem e he', hcopies⟩ l hmem
      · exact hl
    rcases ih hplain.2 hrest hline with ⟨hmem, hnot⟩ | hprinted
    · exact (mem_onLines hplain.1 hmem).imp (fun h => ⟨h.1, h.2, hnot⟩)
        fun h => h.2 fun hcopies => hnul ⟨e, List.mem_cons_self, hcopies⟩
    · exact .inr hprinted

instance instDecidableRewrites (r : List CString) : (e : FileEdit) → Decidable (e.Rewrites r)
  | append _ => inferInstanceAs (Decidable False)
  | drop key => inferInstanceAs (Decidable (HasKey key r))
  | remove key => inferInstanceAs (Decidable (HasKey key r))
  | setField _ _ _ => inferInstanceAs (Decidable True)

/-- None of the edits writes the lines with this row again. -/
def untouched (edits : List FileEdit) (r : List CString) : Bool := ∀ e ∈ edits, ¬ e.Rewrites r

/-- The lines that no edit writes again stay, and others can follow them. -/
theorem filter_foldl_onLines {p : List CString → Bool}
    (hp : ∀ e ∈ edits, ∀ r, p r = true → ¬ e.Rewrites r) (ls : List (List Byte)) :
    ∃ extra, (edits.foldl onLines ls).filter (p ∘ row) = ls.filter (p ∘ row) ++ extra := by
  induction edits generalizing ls with
  | nil => exact ⟨[], (List.append_nil _).symm⟩
  | cons e edits ih =>
    rw [List.forall_mem_cons] at hp
    obtain ⟨extra, hextra⟩ := ih hp.2 (e.onLines ls)
    have hkeys {key : CString} (hkey : ∀ r, p r = true → ¬ HasKey key r) :
        (ls.filter fun line => ¬ HasField colon 0 key line).filter (p ∘ row) =
          ls.filter (p ∘ row) := by
      rw [List.filter_filter]
      refine List.filter_congr fun line _ => ?_
      rw [Bool.and_eq_left_iff_imp, decide_eq_true_iff, hasField_iff]
      exact hkey (row line)
    obtain ⟨added, hadded⟩ : ∃ added, (e.onLines ls).filter (p ∘ row) =
        ls.filter (p ∘ row) ++ added := by
      cases e with
      | append fields => exact ⟨_, List.filter_append _ _⟩
      | drop key => exact ⟨[], (hkeys hp.1).trans (List.append_nil _).symm⟩
      | remove key => exact ⟨[], (hkeys hp.1).trans (List.append_nil _).symm⟩
      | setField key targetField newValue =>
        have hnone (ls : List (List Byte)) : ls.filter (p ∘ row) = [] :=
          List.filter_eq_nil_iff.mpr fun line _ hline => hp.1 (row line) hline trivial
        exact ⟨[], by rw [hnone, hnone, List.append_nil]⟩
    exact ⟨added ++ extra, by rw [List.foldl_cons, hextra, hadded, List.append_assoc]⟩

/-- Lines written by the edits are determined by their rows, and the others stay: edits that cancel
out give back the lines. -/
theorem CancelOut.foldl_onLines_eq (h : CancelOut edits content) (hplain : ∀ e ∈ edits, e.Plain)
    (hmap : (edits.foldl onLines (lines LF content)).map row = (lines LF content).map row) :
    edits.foldl onLines (lines LF content) = lines LF content := by
  have hnul : (∃ e ∈ edits, e.Copies) → ∀ l ∈ lines LF content, 0 ∉ l := by
    rintro ⟨e, he, hcopies⟩ l hl
    exact h.printed e he l hl (hcopies _) ▸ nul_not_mem_printLine l
  refine eq_of_map_eq (p := untouched edits) hmap ?_ ?_
  · obtain ⟨extra, hextra⟩ := filter_foldl_onLines (p := untouched edits)
      (fun e he r hr => of_decide_eq_true hr e he) (lines LF content)
    have hlength := congrArg (fun rs => (rs.filter (untouched edits)).length) hmap
    simp only [List.filter_map, List.length_map, hextra, List.length_append] at hlength
    have hnil : extra = [] := List.eq_nil_of_length_eq_zero (by omega)
    rw [hextra, hnil, List.append_nil]
  · intro a ha b hb htouched hrow
    obtain ⟨e, he, hrewrites⟩ : ∃ e ∈ edits, e.Rewrites (row a) := by
      by_contra hnone
      refine Bool.eq_false_iff.mp htouched (decide_eq_true fun e he hrewrites => ?_)
      exact hnone ⟨e, he, hrewrites⟩
    have haPrinted : printLine a = a := by
      rcases mem_foldl_onLines_printed hplain hnul ha with ⟨-, hnot⟩ | hprinted
      · exact absurd hrewrites (hnot e he)
      · exact hprinted
    have hbPrinted : printLine b = b := h.printed e he b hb (hrow ▸ hrewrites)
    rw [eq_joined_row haPrinted, hrow, ← eq_joined_row hbPrinted]

/-- Edits that give back the lines have written those that they were to write. -/
theorem printed_of_foldl_onLines_eq (hplain : ∀ e ∈ edits, e.Plain)
    (h : edits.foldl onLines ls = ls) {line : List Byte} (hline : line ∈ ls) (he : e ∈ edits)
    (hrewrites : e.Rewrites (row line)) : printLine line = line := by
  have hnul : (∃ e ∈ edits, e.Copies) → ∀ l ∈ ls, 0 ∉ l := by
    rintro ⟨e', he', hcopies⟩ l hl
    rcases mem_foldl_onLines hplain (h.symm ▸ hl) with ⟨-, hnot⟩ | hnul
    · exact absurd (hcopies _) (hnot e' he')
    · exact hnul
  rcases mem_foldl_onLines_printed hplain hnul (h.symm ▸ hline) with ⟨-, hnot⟩ | hprinted
  · exact absurd hrewrites (hnot e he)
  · exact hprinted

/-- **When edits give back the content of a file.** -/
theorem foldl_effect_eq_iff (hplain : ∀ e ∈ edits, e.Plain) (hfind : FindInTurn edits content) :
    edits.foldl effect content = content ↔ CancelOut edits content := by
  constructor
  · intro h
    have hterminated (fields : List CString) (hmem : append fields ∈ edits) :
        Terminated LF content := by
      have hlast := terminated_foldl_of_append hplain hfind hmem
      rwa [h] at hlast
    have hlines : edits.foldl onLines (lines LF content) = lines LF content := by
      rw [← lines_foldl hplain hfind hterminated, h]
    exact ⟨by rw [← rows_foldl hplain hfind hterminated, h], hterminated,
      fun e he line hline => printed_of_foldl_onLines_eq hplain hlines hline he⟩
  · intro h
    have hlines := lines_foldl hplain hfind h.terminated
    have hmap : (edits.foldl onLines (lines LF content)).map row = (lines LF content).map row := by
      rw [← hlines]
      exact (rows_foldl hplain hfind h.terminated).trans h.rows
    calc edits.foldl effect content
        = (lines LF (edits.foldl effect content)).flatten := (flatten_lines _).symm
      _ = (lines LF content).flatten := by rw [hlines, h.foldl_onLines_eq hplain hmap]
      _ = content := flatten_lines content

end FileEdit

/-! ### Edits of several files -/

namespace AccountEdit

/-- The edits of one file. -/
def editsOf (name : CString) (edits : List AccountEdit) : List FileEdit :=
  (edits.filter fun e => e.filename = name).map fun e => e.edit

/-- The edits cancel out: those of each file do, and the file is there. -/
def CancelOut (edits : List AccountEdit) (files : Files) : Prop :=
  ∀ name, editsOf name edits ≠ [] →
    ∃ content, files name = some content ∧ FileEdit.CancelOut (editsOf name edits) content

variable {env : FileEnv} {e : AccountEdit} {edits : List AccountEdit} {files : Files}
  {name : CString}

theorem editsOf_cons_self (h : e.filename = name) :
    editsOf name (e :: edits) = e.edit :: editsOf name edits := by
  rw [editsOf, List.filter_cons, if_pos (decide_eq_true h), List.map_cons, editsOf]

theorem editsOf_cons_of_ne (h : e.filename ≠ name) :
    editsOf name (e :: edits) = editsOf name edits := by
  rw [editsOf, List.filter_cons, if_neg (by rwa [decide_eq_true_iff]), editsOf]

theorem effect_apply_self (h : e.filename = name) :
    e.effect files name = some (e.edit.effect ((files name).getD [])) := by
  subst h
  exact if_pos rfl

theorem effect_apply_of_ne (h : e.filename ≠ name) : e.effect files name = files name :=
  if_neg (Ne.symm h)

/-- **The edits of a file, by themselves.** -/
theorem after_effect_apply (edits : List AccountEdit) (files : Files) (name : CString) :
    Refusal.after effect edits files name =
      if editsOf name edits = [] then files name
      else some ((editsOf name edits).foldl FileEdit.effect ((files name).getD [])) := by
  induction edits generalizing files with
  | nil => rfl
  | cons e edits ih =>
    have hafter : Refusal.after effect (e :: edits) files =
      Refusal.after effect edits (e.effect files) := rfl
    rw [hafter, ih]
    by_cases hname : e.filename = name
    · rw [editsOf_cons_self hname, if_neg (List.cons_ne_nil _ _), effect_apply_self hname,
        Option.getD_some, List.foldl_cons]
      split
      · next hnil => rw [hnil, List.foldl_nil]
      · rfl
    · rw [editsOf_cons_of_ne hname, effect_apply_of_ne hname]

theorem finds_of_accepted (h : e.refusal env files = none) :
    e.edit.Finds ((files e.filename).getD []) := by
  cases hedit : e.edit with
  | append fields => trivial
  | drop key => trivial
  | remove key => trivial
  | setField key targetField newValue =>
    simp only [refusal, hedit] at h
    split_ifs at h with hfile hcopy
    rw [Bool.not_eq_true, Option.isNone_eq_false_iff] at hcopy
    exact hcopy

theorem findInTurn_of_accepted
    (h : Refusal.Accepted (AccountEdit.refusal env) effect edits files) (name : CString) :
    FileEdit.FindInTurn (editsOf name edits) ((files name).getD []) := by
  induction edits generalizing files with
  | nil => trivial
  | cons e edits ih =>
    have hrest := ih h.2
    by_cases hname : e.filename = name
    · rw [effect_apply_self hname, Option.getD_some] at hrest
      rw [editsOf_cons_self hname]
      exact ⟨hname ▸ finds_of_accepted h.1, hrest⟩
    · rw [effect_apply_of_ne hname] at hrest
      rw [editsOf_cons_of_ne hname]
      exact hrest

/-- **When edits give back the files.** -/
theorem after_effect_eq_iff (hplain : ∀ e ∈ edits, e.edit.Plain)
    (h : Refusal.Accepted (AccountEdit.refusal env) effect edits files) :
    Refusal.after effect edits files = files ↔ CancelOut edits files := by
  rw [funext_iff]
  refine forall_congr' fun name => ?_
  rw [after_effect_apply]
  by_cases hnil : editsOf name edits = []
  · rw [if_pos hnil]
    exact iff_of_true rfl fun hne => absurd hnil hne
  · have hplainOf : ∀ e ∈ editsOf name edits, e.Plain := by
      intro e he
      obtain ⟨e', he', rfl⟩ := List.mem_map.mp he
      exact hplain e' (List.mem_filter.mp he').1
    have hiff := FileEdit.foldl_effect_eq_iff hplainOf (findInTurn_of_accepted h name)
    rw [if_neg hnil, imp_iff_right hnil]
    cases hfile : files name with
    | none =>
      refine iff_of_false (Option.some_ne_none _) ?_
      rintro ⟨content, hcontent, -⟩
      contradiction
    | some content =>
      rw [hfile, Option.getD_some] at hiff
      rw [Option.getD_some, Option.some_inj, hiff]
      constructor
      · exact fun hcancel => ⟨content, rfl, hcancel⟩
      · rintro ⟨content', hcontent, hcancel⟩
        rwa [Option.some.inj hcontent]

end AccountEdit

end ChilopodCaster
