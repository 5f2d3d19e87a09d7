import Mathlib.Data.List.Basic

/-!
# Paths and what they name

A path is a text whose components are separated by a character. An empty component, and the name of
a directory itself, lead nowhere. The name of the directory above takes back the component before
it; above the root there is nothing, and a relative path that starts with it starts above. Links
are not looked at.

A path that goes on from a directory, without going up, names something inside that directory.

## Main definitions

* `Style` — the separator, and the two names
* `rooted`, `dirs` — whether a path starts at the root, and the directories it goes through
* `Inside` — a path names something inside a directory

## Main results

* `inside_append` — a path that goes on without going up
* `scan_eq` — a scanner that looks at each component looks at every list of components at the end
-/

namespace ChilopodCaster

namespace Paths

/-- The separator, the name of a directory itself, and the name of the directory above. -/
structure Style (α : Type*) where
  sep : α
  here : List α
  up : List α

variable {α : Type*} [DecidableEq α] (S : Style α)

/-- A component leads somewhere. -/
def leads (c : List α) : Bool := c ≠ [] ∧ c ≠ S.here

/-- The directories after another component. -/
def enter (rooted : Bool) (dirs : List (List α)) (c : List α) : List (List α) :=
  if leads S c = false then dirs
  else if c = S.up then
    match dirs.getLast? with
    | none => if rooted then [] else [S.up]
    | some d => if d = S.up then dirs ++ [S.up] else dirs.dropLast
  else dirs ++ [c]

/-- The path starts at the root. -/
def rooted (path : List α) : Bool := path.head? = some S.sep

/-- The directories that a path goes through. -/
def dirs (path : List α) : List (List α) :=
  (path.splitOn S.sep).foldl (enter S (rooted S path)) []

/-- A path names something inside a directory. -/
def Inside (root path : List α) : Prop :=
  rooted S path = rooted S root ∧ ∃ rest, dirs S path = dirs S root ++ rest ∧ S.up ∉ rest

variable {S}

/-! ### Going on -/

/-- Components that do not go up are entered, those that lead somewhere. -/
theorem foldl_enter {cs : List (List α)} (h : S.up ∉ cs) (r : Bool) (ds : List (List α)) :
    cs.foldl (enter S r) ds = ds ++ cs.filter (leads S) := by
  induction cs generalizing ds with
  | nil => exact (List.append_nil ds).symm
  | cons c cs ih =>
    obtain ⟨hc, hcs⟩ := not_or.mp (mt List.mem_cons.mpr h)
    rw [List.foldl_cons, ih hcs, enter]
    by_cases hleads : leads S c = true
    · rw [if_neg (Bool.not_eq_false _ ▸ hleads), if_neg (Ne.symm hc),
        List.filter_cons_of_pos hleads, List.append_assoc]
      rfl
    · rw [if_pos (Bool.eq_false_iff.mpr hleads), List.filter_cons_of_neg hleads]

/-- A component that leads nowhere. -/
theorem enter_of_leads {c : List α} (h : leads S c = false) (r : Bool) (ds : List (List α)) :
    enter S r ds c = ds := if_pos h

theorem leads_nil : leads S ([] : List α) = false := decide_eq_false fun h => h.1 rfl

theorem splitOn_sep_cons (sep : α) (s : List α) :
    (sep :: s).splitOn sep = [] :: s.splitOn sep :=
  List.splitOn_append_cons_self [] s

/-- A path that starts at the root. -/
theorem dirs_cons (rel : List α) : rooted S (S.sep :: rel) = true ∧
    dirs S (S.sep :: rel) = (rel.splitOn S.sep).foldl (enter S true) [] := by
  have hrooted : rooted S (S.sep :: rel) = true := decide_eq_true rfl
  refine ⟨hrooted, ?_⟩
  rw [dirs, hrooted, splitOn_sep_cons, List.foldl_cons, enter_of_leads leads_nil]

theorem dirs_append (root rel : List α) (hroot : root ≠ []) :
    rooted S (root ++ S.sep :: rel) = rooted S root ∧
      dirs S (root ++ S.sep :: rel) =
        (rel.splitOn S.sep).foldl (enter S (rooted S root)) (dirs S root) := by
  have hrooted : rooted S (root ++ S.sep :: rel) = rooted S root := by
    obtain ⟨c, root, rfl⟩ := List.exists_cons_of_ne_nil hroot
    rfl
  refine ⟨hrooted, ?_⟩
  rw [dirs, hrooted, List.splitOn_append_cons_self, List.foldl_append]
  rfl

/-- **A path that goes on from a directory** without going up. -/
theorem inside_append {root rel : List α} (hroot : root ≠ []) (h : S.up ∉ rel.splitOn S.sep) :
    Inside S root (root ++ S.sep :: rel) := by
  obtain ⟨hrooted, hdirs⟩ := dirs_append (S := S) root rel hroot
  refine ⟨hrooted, (rel.splitOn S.sep).filter (leads S), ?_, ?_⟩
  · rw [hdirs, foldl_enter h]
  · exact fun hmem => h (List.mem_of_mem_filter hmem)

theorem inside_refl (root : List α) : Inside S root root :=
  ⟨rfl, [], (List.append_nil _).symm, List.not_mem_nil⟩

/-- Two paths that name the same. -/
theorem inside_congr {root root' path : List α} (hrooted : rooted S root = rooted S root')
    (hdirs : dirs S root = dirs S root') : Inside S root path ↔ Inside S root' path := by
  rw [Inside, Inside, hrooted, hdirs]

/-- A separator at the end, or twice in the middle, changes nothing. -/
theorem dirs_concat (root : List α) (hroot : root ≠ []) :
    rooted S (root ++ [S.sep]) = rooted S root ∧ dirs S (root ++ [S.sep]) = dirs S root := by
  obtain ⟨hrooted, hdirs⟩ := dirs_append (S := S) root [] hroot
  refine ⟨hrooted, hdirs.trans ?_⟩
  rw [List.splitOn_nil, List.foldl_cons, List.foldl_nil, enter_of_leads leads_nil]

theorem dirs_append_cons (root rel : List α) :
    rooted S (root ++ S.sep :: S.sep :: rel) = rooted S (root ++ S.sep :: rel) ∧
      dirs S (root ++ S.sep :: S.sep :: rel) = dirs S (root ++ S.sep :: rel) := by
  have hrooted :
      rooted S (root ++ S.sep :: S.sep :: rel) = rooted S (root ++ S.sep :: rel) := by
    cases root <;> rfl
  refine ⟨hrooted, ?_⟩
  rw [dirs, dirs, hrooted, List.splitOn_append_cons_self, List.splitOn_append_cons_self,
    splitOn_sep_cons, List.foldl_append, List.foldl_append, List.foldl_cons,
    enter_of_leads leads_nil]

/-- A path that goes on from a directory whose separator is there. -/
theorem inside_concat {root rel : List α} (h : S.up ∉ rel.splitOn S.sep) :
    Inside S (root ++ [S.sep]) (root ++ S.sep :: rel) := by
  cases root with
  | nil =>
    have hroot : dirs S [S.sep] = [] := by
      rw [(dirs_cons []).2, List.splitOn_nil, List.foldl_cons, List.foldl_nil,
        enter_of_leads leads_nil]
    refine ⟨(dirs_cons rel).1.trans (dirs_cons []).1.symm, (rel.splitOn S.sep).filter (leads S),
      ?_, fun hmem => h (List.mem_of_mem_filter hmem)⟩
    rw [List.nil_append, List.nil_append, hroot, (dirs_cons rel).2, foldl_enter h]
  | cons c root =>
    have hne := List.cons_ne_nil c root
    obtain ⟨hrooted, hdirs⟩ := dirs_concat (S := S) (c :: root) hne
    exact (inside_congr hrooted hdirs).mpr (inside_append hne h)

/-! ### Scanners -/

/-- A scanner that looks at what is left of a text wherever a component starts. `start` says that
one does. -/
def scan (sep : α) (bad : List α → Bool) : Bool → List α → Bool
  | _, [] => false
  | start, c :: s => (start && bad (c :: s)) || scan sep bad (c = sep) s

/-- Some end of a list is bad. -/
def anyTail (bad : List (List α) → Bool) : List (List α) → Bool
  | [] => false
  | c :: cs => bad (c :: cs) || anyTail bad cs

/-- **Scanners.** What is left of a text is looked at through its components. -/
theorem scan_eq {sep : α} {bad : List α → Bool} {badTail : List (List α) → Bool}
    (hbad : ∀ s, bad s = badTail (s.splitOn sep)) (hnil : badTail [[]] = false) (s : List α) :
    scan sep bad true s = anyTail badTail (s.splitOn sep) ∧
      scan sep bad false s = anyTail badTail (s.splitOn sep).tail := by
  induction s with
  | nil =>
    rw [List.splitOn_nil, scan, scan, anyTail, hnil]
    exact ⟨rfl, rfl⟩
  | cons c s ih =>
    rw [scan, scan, hbad (c :: s), Bool.true_and, Bool.false_and, Bool.false_or]
    by_cases hc : c = sep
    · have hsplit : (c :: s).splitOn sep = [] :: s.splitOn sep := by
        rw [hc]
        exact splitOn_sep_cons sep s
      rw [hsplit, decide_eq_true hc, ih.1]
      exact ⟨rfl, rfl⟩
    · obtain ⟨d, ds, hs⟩ := List.exists_cons_of_ne_nil (List.splitOn_ne_nil sep s)
      have hsplit : (c :: s).splitOn sep = (c :: d) :: ds := by
        rw [List.splitOn_cons_eq_if_modifyHead, if_neg (by rwa [beq_iff_eq]), hs]
        rfl
      rw [hsplit, decide_eq_false hc, ih.2, hs]
      exact ⟨rfl, rfl⟩

end Paths

end ChilopodCaster
