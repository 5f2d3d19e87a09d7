import ChilopodCaster.Lib.Paths
import ChilopodCaster.PathJoin

/-!
# Static files

Files are served from two kinds of directories: the web roots, below which the whole path of the
request is looked up, and the directory of the user interface. Both look at the components of the
path first. `check_safe_uri` refuses `.` and `..` where a slash follows, and `ui_serve` every
component that starts with two dots. A last component `.` or `..` gets through the first of them,
but it names a directory, and only regular files are read.

What is appended to a directory by `path_join` is inside it, but for a relative web root that is a
single character: no slash comes before it, so the files of a neighbour of the base directory are
served. An empty directory of the user interface serves the whole file system.

## Main definitions

* `pathStyle` — paths of the file system
* `safeScan`, `uiScan` — the scanners of `check_safe_uri` and `ui_serve`
* `filesrvPath`, `uiPath` — what is opened, with the directory it should be in
* `StaysInside` — what is expected of what is read
* `StraysFromWebroot`, `StraysFromUi` — what goes wrong

## Main results

* `checkSafeUri_eq`, `uiSafe_eq` — what the scanners look for
* `staysInside_iff` — when all that is read is inside
-/

namespace ChilopodCaster

namespace Ntripsrv

open Paths

/-- Paths of the file system. -/
def pathStyle : Style Byte := ⟨slash, cstr ".", cstr ".."⟩

/-! ### The scanners -/

/-- The loop of `check_safe_uri`: whether it refuses. -/
def safeScan (uri : CString) : Bool :=
  scan slash (fun p => (cstr "./").isPrefixOf p || (cstr "../").isPrefixOf p) true uri

/-- The loop of `ui_serve`: whether it refuses. -/
def uiScan (rel : CString) : Bool := scan slash (cstr "..").isPrefixOf true rel

/-- The components of a text: one, or the first one and those of what follows its slash. -/
theorem splitOn_cases (s : CString) :
    slash ∉ s ∧ s.splitOn slash = [s] ∨
      ∃ x y, s = x ++ slash :: y ∧ slash ∉ x ∧ s.splitOn slash = x :: y.splitOn slash := by
  by_cases hmem : slash ∈ s
  · obtain ⟨x, y, rfl, hx⟩ := List.eq_append_cons_of_mem hmem
    exact Or.inr ⟨x, y, rfl, hx, List.splitOn_append_cons_self_of_not_mem hx y⟩
  · exact Or.inl ⟨hmem, List.splitOn_eq_singleton hmem⟩

/-- A text without slashes that another one starts with is in its first component. -/
theorem prefix_of_prefix_append {a x y : CString} (ha : slash ∉ a)
    (h : a <+: x ++ slash :: y) : a <+: x := by
  rcases List.prefix_or_prefix_of_prefix h (List.prefix_append x (slash :: y)) with h' | ⟨t, rfl⟩
  · exact h'
  · cases t with
    | nil => exact ⟨[], by rw [List.append_nil, List.append_nil]⟩
    | cons d t =>
      rw [List.prefix_append_right_inj, List.cons_prefix_cons] at h
      exact absurd (List.mem_append_right x (h.1 ▸ List.mem_cons_self)) ha

theorem isPrefixOf_splitOn {a : CString} (ha : slash ∉ a) (s : CString) :
    a.isPrefixOf s = (s.splitOn slash).head?.any a.isPrefixOf := by
  rcases splitOn_cases s with ⟨-, hs⟩ | ⟨x, y, rfl, -, hs⟩
  · rw [hs]
    rfl
  · rw [hs]
    refine Bool.eq_iff_iff.mpr ?_
    rw [List.head?_cons, Option.any_some, List.isPrefixOf_iff_prefix, List.isPrefixOf_iff_prefix]
    exact ⟨prefix_of_prefix_append ha, fun h => h.trans (List.prefix_append _ _)⟩

/-- A component that a slash follows. -/
theorem isPrefixOf_append_slash {a : CString} (ha : slash ∉ a) (s : CString) :
    (a ++ [slash]).isPrefixOf s =
      decide ((s.splitOn slash).head? = some a ∧ (s.splitOn slash).tail ≠ []) := by
  refine Bool.eq_iff_iff.mpr ?_
  rw [decide_eq_true_iff, List.isPrefixOf_iff_prefix]
  constructor
  · rintro ⟨y, rfl⟩
    rw [List.append_assoc, List.singleton_append, List.splitOn_append_cons_self_of_not_mem ha]
    exact ⟨rfl, List.splitOn_ne_nil _ _⟩
  · rcases splitOn_cases s with ⟨-, hs⟩ | ⟨x, y, rfl, -, hs⟩
    · rw [hs]
      exact fun h => absurd rfl h.2
    · rw [hs]
      rintro ⟨hx, -⟩
      obtain rfl := Option.some.inj hx
      exact ⟨y, by rw [List.append_assoc]; rfl⟩

/-- What `check_safe_uri` refuses, where a component starts. -/
def unsafeTail (cs : List CString) : Bool :=
  decide (cs.head? = some (cstr ".") ∧ cs.tail ≠ []) ||
    decide (cs.head? = some (cstr "..") ∧ cs.tail ≠ [])

/-- **The scanner of `check_safe_uri`** looks at every component but the last. -/
theorem checkSafeUri_eq (uri : CString) : checkSafeUri uri = !safeScan uri := by
  have hbad (s : CString) : ((cstr "./").isPrefixOf s || (cstr "../").isPrefixOf s) =
      unsafeTail (s.splitOn slash) := by
    have hone := isPrefixOf_append_slash (a := cstr ".") (by decide) s
    have htwo := isPrefixOf_append_slash (a := cstr "..") (by decide) s
    rw [unsafeTail, ← hone, ← htwo]
    rfl
  have hlist (cs : List CString) : (cs.dropLast.all fun p => p ≠ cstr "." ∧ p ≠ cstr "..") =
      !anyTail unsafeTail cs := by
    induction cs with
    | nil => rfl
    | cons c cs ih =>
      rw [anyTail, Bool.not_or, ← ih]
      cases cs with
      | nil =>
        have hnot : unsafeTail [c] = false := by simp [unsafeTail]
        rw [hnot]
        rfl
      | cons d cs =>
        have hc : (!unsafeTail (c :: d :: cs)) = decide (c ≠ cstr "." ∧ c ≠ cstr "..") := by
          simp [unsafeTail]
        rw [hc]
        rfl
  rw [checkSafeUri, hlist, safeScan, (scan_eq hbad (by decide) uri).1]

/-- What `ui_serve` refuses, where a component starts. -/
def dottedTail (cs : List CString) : Bool := cs.head?.any (cstr "..").isPrefixOf

/-- **The scanner of `ui_serve`** looks at every component. -/
theorem uiSafe_eq (rel : CString) :
    (rel.splitOn 47).any ((cstr "..").isPrefixOf ·) = uiScan rel := by
  have hbad (s : CString) : (cstr "..").isPrefixOf s = dottedTail (s.splitOn slash) :=
    isPrefixOf_splitOn (by decide) s
  have hlist (cs : List CString) :
      cs.any ((cstr "..").isPrefixOf ·) = anyTail dottedTail cs := by
    induction cs with
    | nil => rfl
    | cons c cs ih =>
      rw [List.any_cons, anyTail, ih]
      rfl
  rw [hlist, uiScan, (scan_eq hbad (by decide) rel).1]

/-! ### What is opened -/

/-- The web root that the path of a request falls under. -/
def webroot (config : Config) (uri : CString) : Option Webroot :=
  config.webroots.find? (fun wr => wr.uri ≠ [] ∧ wr.uri.isPrefixOf uri)

/-- The directory that a web root stands for. -/
def rootDir (configDir path : CString) : CString :=
  if path.head? = some slash then path else configDir ++ slash :: path

/-- What `filesrv` opens, after the directory that it should be in. -/
def filesrvPath (configDir : CString) (config : Config) (uri : CString) :
    Option (CString × CString) :=
  (webroot config uri).bind fun wr =>
    if checkSafeUri uri then some (rootDir configDir wr.path, pathJoin configDir [wr.path, uri])
    else none

/-- What `ui_serve` opens, after the directory that it should be in. -/
def uiPath (config : Config) (uri : CString) : Option (CString × CString) :=
  if uri = cstr "/ui" ∨ (cstr "/ui/").isPrefixOf uri then
    config.uiDir.bind fun uiDir =>
      if uiScan (uiRel uri) then none else some (uiDir, uiDir ++ slash :: uiRel uri)
  else none

variable {W G : Type} {c : Caster W G} {config : Config} {s : Server W G} {uri : CString}

/-- `filesrv` looks at no other file. -/
theorem filesrv_congr (f : W → CString → FileRead)
    (h : ∀ root path, filesrvPath c.configDir config uri = some (root, path) →
      f s.w path = c.readFile s.w path) :
    filesrv { c with readFile := f } config s uri = filesrv c config s uri := by
  cases hroot : webroot config uri with
  | none =>
    rw [webroot] at hroot
    rw [filesrv, filesrv, hroot]
  | some wr =>
    rw [filesrvPath, hroot, Option.bind_some] at h
    rw [webroot] at hroot
    rw [filesrv, filesrv, hroot]
    cases hsafe : checkSafeUri uri with
    | false => rfl
    | true =>
      rw [hsafe] at h
      have hread : f s.forceHttp.w (pathJoin c.configDir [wr.path, uri]) =
          c.readFile s.forceHttp.w (pathJoin c.configDir [wr.path, uri]) := h _ _ rfl
      simp only [Bool.true_eq_false, if_false, hread]

/-- `ui_serve` looks at no other file. -/
theorem uiServe_congr (f : W → CString → FileRead)
    (h : ∀ root path, uiPath config uri = some (root, path) →
      f s.w path = c.readFile s.w path) :
    uiServe { c with readFile := f } config s uri = uiServe c config s uri := by
  rw [uiServe, uiServe]
  by_cases hui : uri ≠ cstr "/ui" ∧ ¬ (cstr "/ui/").isPrefixOf uri
  · rw [if_pos hui, if_pos hui]
  · rw [if_neg hui, if_neg hui]
    have hui' : uri = cstr "/ui" ∨ (cstr "/ui/").isPrefixOf uri := by
      rwa [not_and_or, not_not, not_not] at hui
    rw [uiPath, if_pos hui'] at h
    cases hdir : config.uiDir with
    | none => rfl
    | some uiDir =>
      rw [hdir, Option.bind_some] at h
      simp only [uiSafe_eq]
      cases hsafe : uiScan (uiRel uri) with
      | true => rfl
      | false =>
        rw [hsafe] at h
        have hread : f s.w (uiDir ++ [47] ++ uiRel uri) =
            c.readFile s.w (uiDir ++ [47] ++ uiRel uri) := by
          rw [List.append_assoc]
          exact h _ _ rfl
        simp only [Bool.false_eq_true, if_false, hread]

/-! ### Directories -/

/-- Paths that name a file: not the empty one, and none that ends in a directory's own name or in
that of the directory above. -/
structure NamesFile (path : CString) : Prop where
  ne_nil : path ≠ []
  ne_here : (path.splitOn slash).getLast? ≠ some (cstr ".")
  ne_up : (path.splitOn slash).getLast? ≠ some (cstr "..")

theorem up_not_mem {u r : CString} (hsafe : checkSafeUri (slash :: u) = true)
    (hfile : NamesFile (r ++ slash :: u)) : pathStyle.up ∉ u.splitOn slash := by
  intro hmem
  obtain ⟨ds, d, hsplit⟩ :=
    (u.splitOn slash).eq_nil_or_concat.resolve_left (List.splitOn_ne_nil slash u)
  rw [List.concat_eq_append] at hsplit
  have hlast := hfile.ne_up
  have hne : ds ++ [d] ≠ [] := List.append_ne_nil_of_right_ne_nil ds (List.cons_ne_nil d [])
  rw [List.splitOn_append_cons_self, hsplit, ← List.append_assoc, List.getLast?_concat] at hlast
  rw [checkSafeUri, splitOn_sep_cons, hsplit, List.dropLast_cons_of_ne_nil hne,
    List.dropLast_concat, List.all_cons, Bool.and_eq_true, List.all_eq_true] at hsafe
  rw [hsplit] at hmem
  rcases List.mem_append.mp hmem with hmem | hmem
  · exact (of_decide_eq_true (hsafe.2 _ hmem)).2 rfl
  · exact hlast (congrArg some (List.mem_singleton.mp hmem).symm)

/-- A path goes on from a directory. -/
theorem inside_joinElement {r u : CString} (hr : r ≠ []) (hsafe : checkSafeUri (slash :: u) = true)
    (hfile : NamesFile (joinElement r (slash :: u))) :
    Inside pathStyle r (joinElement r (slash :: u)) := by
  by_cases hu : u = []
  · rw [hu, joinElement_slash]
    exact inside_refl r
  · have htext := joinElement_of_tail (r := r) (p := slash :: u) hu
    rw [List.head?_cons, if_pos rfl, List.tail_cons] at htext
    by_cases hlast : r.getLast? = some slash
    · obtain ⟨a, rfl⟩ := List.getLast?_eq_some_iff.mp hlast
      rw [if_pos hlast, List.append_assoc, List.singleton_append] at htext
      rw [htext] at hfile ⊢
      exact inside_concat (up_not_mem hsafe hfile)
    · rw [if_neg hlast, List.append_assoc, List.singleton_append] at htext
      rw [htext] at hfile ⊢
      exact inside_append hr (up_not_mem hsafe hfile)

/-- A directory that is not a single character below the base directory is where it should be. -/
theorem sameDir_rootDir {dir path : CString} (hdir : dir ≠ []) (hpath : path ≠ [slash])
    (hone : path.tail = [] → path.head? ≠ some slash → path ≠ [] → dir.getLast? = some slash)
    (uri : CString) :
    joinElement (startText dir [path, uri]) path ≠ [] ∧
      rooted pathStyle (rootDir dir path) =
        rooted pathStyle (joinElement (startText dir [path, uri]) path) ∧
      dirs pathStyle (rootDir dir path) =
        dirs pathStyle (joinElement (startText dir [path, uri]) path) := by
  have hrelative : Relative [path, uri] ↔ path.head? ≠ some slash :=
    and_iff_right (List.cons_ne_nil path [uri])
  by_cases hhead : path.head? = some slash
  · obtain ⟨p, rfl⟩ := List.head?_eq_some_iff.mp hhead
    have hp : p ≠ [] := fun h => hpath (h ▸ rfl)
    have htext : joinElement [] (slash :: p) = slash :: p := joinElement_of_tail hp
    rw [startText, if_neg (mt hrelative.mp (not_not.mpr hhead)), htext, rootDir, if_pos hhead]
    exact ⟨List.cons_ne_nil slash p, rfl, rfl⟩
  · rw [startText, if_pos (hrelative.mpr hhead), rootDir, if_neg hhead]
    have hne : joinElement dir path ≠ [] := fun h =>
      hdir (List.prefix_nil.mp (h ▸ prefix_joinElement dir path))
    refine ⟨hne, ?_⟩
    by_cases hempty : path = []
    · subst hempty
      have htext : joinElement dir [] = dir := List.append_nil dir
      rw [htext]
      exact dirs_concat dir hdir
    · have htext : joinElement dir path =
          (if dir.getLast? = some slash then dir else dir ++ [slash]) ++ path := by
        by_cases htail : path.tail = []
        · rw [if_pos (hone htail hhead hempty), joinElement, if_neg fun h => h.1 htail,
            if_neg hhead]
        · rw [joinElement_of_tail htail, if_neg hhead]
      rw [htext]
      by_cases hlast : dir.getLast? = some slash
      · obtain ⟨a, rfl⟩ := List.getLast?_eq_some_iff.mp hlast
        rw [if_pos hlast, List.append_assoc, List.append_assoc]
        exact dirs_append_cons a path
      · rw [if_neg hlast, List.append_assoc]
        exact ⟨rfl, rfl⟩

/-- An ordinary name of a file or a directory. -/
structure IsName (n : CString) : Prop where
  leads : leads pathStyle n = true
  ne_up : n ≠ cstr ".."
  not_mem : slash ∉ n

/-- The path of these directories, from the root. -/
def absolutePath (names : List CString) : CString := names.flatMap fun n => slash :: n

/-- What `realpath` finds: each component is an ordinary name. -/
def RealDir (dir : CString) : Prop :=
  dir = [slash] ∨ ∃ names, names ≠ [] ∧ (∀ n ∈ names, IsName n) ∧ dir = absolutePath names

theorem splitOn_absolutePath {n : CString} {names : List CString} (hn : slash ∉ n)
    (h : ∀ n ∈ names, IsName n) :
    (n ++ absolutePath names).splitOn slash = n :: names := by
  induction names generalizing n with
  | nil => rw [absolutePath, List.flatMap_nil, List.append_nil, List.splitOn_eq_singleton hn]
  | cons m names ih =>
    obtain ⟨hm, hnames⟩ := List.forall_mem_cons.mp h
    have hcons : absolutePath (m :: names) = slash :: (m ++ absolutePath names) := rfl
    rw [hcons, List.splitOn_append_cons_self_of_not_mem hn, ih hm.not_mem hnames]

/-- A path from the root goes through its directories. -/
theorem dirs_absolutePath {names : List CString} (hne : names ≠ []) (h : ∀ n ∈ names, IsName n) :
    rooted pathStyle (absolutePath names) = true ∧
      dirs pathStyle (absolutePath names) = names := by
  obtain ⟨n, names, rfl⟩ := List.exists_cons_of_ne_nil hne
  obtain ⟨hn, hnames⟩ := List.forall_mem_cons.mp h
  have hcons : absolutePath (n :: names) = slash :: (n ++ absolutePath names) := rfl
  have hup : pathStyle.up ∉ n :: names := fun hmem => (h _ hmem).ne_up rfl
  obtain ⟨hrooted, hdirs⟩ := dirs_cons (S := pathStyle) (n ++ absolutePath names)
  rw [hcons]
  refine ⟨hrooted, hdirs.trans ?_⟩
  rw [pathStyle, splitOn_absolutePath hn.not_mem hnames, ← pathStyle, foldl_enter hup,
    List.filter_eq_self.mpr fun n hn => (h n hn).leads]
  rfl

theorem IsName.concat {n : CString} (hn : IsName n) {b : Byte} (hb : b ≠ slash) :
    IsName (n ++ [b]) := by
  have hleads : n ≠ [] ∧ n ≠ cstr "." := of_decide_eq_true hn.leads
  have hlength : 0 < n.length := List.length_pos_iff.mpr hleads.1
  refine ⟨decide_eq_true ⟨?_, ?_⟩, ?_, ?_⟩
  · exact List.append_ne_nil_of_right_ne_nil n (List.cons_ne_nil b [])
  · intro h
    have hone : (n ++ [b]).length = 1 := congrArg List.length h
    rw [List.length_append, List.length_singleton] at hone
    omega
  · intro h
    have hinit : (n ++ [b]).dropLast = cstr "." := congrArg List.dropLast h
    rw [List.dropLast_concat] at hinit
    exact hleads.2 hinit
  · rw [List.mem_append, List.mem_singleton]
    rintro (h | rfl)
    · exact hn.not_mem h
    · exact hb rfl

/-- A single character that follows the base directory without a slash makes another directory of
its last name, and nothing in there is inside the web root. -/
theorem not_inside_rootDir {names : List CString} {n : CString}
    (h : ∀ m ∈ names ++ [n], IsName m) {b : Byte} (hb : b ≠ slash) {path : CString}
    (hpath : Inside pathStyle (absolutePath (names ++ [n]) ++ [b]) path) :
    ¬ Inside pathStyle (rootDir (absolutePath (names ++ [n])) [b]) path := by
  have hne (m : CString) : names ++ [m] ≠ [] :=
    List.append_ne_nil_of_right_ne_nil names (List.cons_ne_nil m [])
  have hn := h n (List.mem_append_right names List.mem_cons_self)
  have hconcat : absolutePath (names ++ [n]) ++ [b] = absolutePath (names ++ [n ++ [b]]) := by
    simp only [absolutePath, List.flatMap_append, List.flatMap_cons, List.flatMap_nil,
      List.append_nil, List.append_assoc, List.cons_append]
  have hnames : ∀ m ∈ names ++ [n ++ [b]], IsName m := by
    intro m hm
    rcases List.mem_append.mp hm with hm | hm
    · exact h m (List.mem_append_left _ hm)
    · obtain rfl := List.mem_singleton.mp hm
      exact hn.concat hb
  have hhead : [b].head? ≠ some slash := fun h => hb (Option.some.inj h)
  have hdir : absolutePath (names ++ [n]) ≠ [] := by
    rw [absolutePath, List.flatMap_append]
    exact List.append_ne_nil_of_right_ne_nil _ (List.cons_ne_nil _ _)
  have hb' : slash ∉ [b] := fun h => hb (List.mem_singleton.mp h).symm
  have htwo : pathStyle.up.length ≠ 1 := by decide
  have hup : pathStyle.up ∉ [[b]] := fun hmem =>
    htwo (congrArg List.length (List.mem_singleton.mp hmem))
  obtain ⟨-, hroot⟩ := dirs_append (S := pathStyle) (absolutePath (names ++ [n])) [b] hdir
  have hsplit : [b].splitOn pathStyle.sep = [[b]] := List.splitOn_eq_singleton hb'
  rw [(dirs_absolutePath (hne n) h).2, hsplit, foldl_enter hup] at hroot
  obtain ⟨-, rest, hrest, -⟩ := hpath
  rw [hconcat, (dirs_absolutePath (hne _) hnames).2, List.append_assoc] at hrest
  rintro ⟨-, rest', hrest', -⟩
  rw [rootDir, if_neg hhead] at hrest'
  have hroot' := hrest'.trans (congrArg (· ++ rest') hroot)
  simp only [List.append_assoc] at hroot'
  have hsame := List.append_cancel_left (hrest.symm.trans hroot')
  have hlength := congrArg List.length (List.cons.inj hsame).1
  rw [List.length_append, List.length_singleton] at hlength
  omega

/-! ### What is read -/

/-- A regular file is read. -/
def Reads (c : Caster W G) (s : Server W G) (opened : Option (CString × CString))
    (root path : CString) : Prop :=
  opened = some (root, path) ∧ ∃ content, c.readFile s.w path = .file content

/-- What is read for the path of a request is inside the directory that it should be in. -/
def StaysInside (c : Caster W G) (config : Config) (s : Server W G) (uri : CString) : Prop :=
  ∀ root path, Reads c s (filesrvPath c.configDir config uri) root path ∨
    Reads c s (uiPath config uri) root path → Inside pathStyle root path

/-- The web root is a single character below the base directory, and there is a file next to it. -/
def StraysFromWebroot (c : Caster W G) (config : Config) (s : Server W G) (uri : CString) : Prop :=
  ∃ wr b content, webroot config uri = some wr ∧ wr.path = [b] ∧ b ≠ slash ∧
    c.configDir ≠ [slash] ∧ checkSafeUri uri = true ∧
    c.readFile s.w (c.configDir ++ [b] ++ if uri = [slash] then [] else uri) = .file content

/-- The directory of the user interface is empty, and there is a file in the file system. -/
def StraysFromUi (c : Caster W G) (config : Config) (s : Server W G) (uri : CString) : Prop :=
  ∃ content, (uri = cstr "/ui" ∨ (cstr "/ui/").isPrefixOf uri) ∧ config.uiDir = some [] ∧
    uiScan (uiRel uri) = false ∧ c.readFile s.w (slash :: uiRel uri) = .file content

theorem pathJoin_pair (dir path uri : CString) :
    pathJoin dir [path, uri] =
      joinElement (joinElement (startText dir [path, uri]) path) uri := by
  rw [pathJoin_eq, List.foldl_cons, List.foldl_cons, List.foldl_nil]

/-- What `path_join` makes of a single character. -/
theorem pathJoin_singleton (dir : CString) {b : Byte} (hb : b ≠ slash) (u : CString) :
    joinElement (startText dir [[b], slash :: u]) [b] = dir ++ [b] ∧
      pathJoin dir [[b], slash :: u] =
        dir ++ [b] ++ if slash :: u = [slash] then [] else slash :: u := by
  have hhead : [b].head? ≠ some slash := fun h => hb (Option.some.inj h)
  have hrelative : Relative [[b], slash :: u] := ⟨List.cons_ne_nil _ _, hhead⟩
  have hstart : joinElement (startText dir [[b], slash :: u]) [b] = dir ++ [b] := by
    rw [startText, if_pos hrelative, joinElement_singleton _ hb]
  refine ⟨hstart, ?_⟩
  rw [pathJoin_pair, hstart]
  by_cases hu : u = []
  · rw [hu, joinElement_slash, if_pos rfl, List.append_nil]
  · have hlast : (dir ++ [b]).getLast? ≠ some slash := by
      rw [List.getLast?_concat]
      exact fun h => hb (Option.some.inj h)
    have hlong : slash :: u ≠ [slash] := fun h => hu (List.cons.inj h).2
    have htext := joinElement_of_tail (r := dir ++ [b]) (p := slash :: u) hu
    rw [htext, if_neg hlast, if_neg hlong, List.append_assoc]
    rfl

theorem filesrvPath_eq_some_iff {dir root path : CString} :
    filesrvPath dir config uri = some (root, path) ↔
      ∃ wr, webroot config uri = some wr ∧ checkSafeUri uri = true ∧ rootDir dir wr.path = root ∧
        pathJoin dir [wr.path, uri] = path := by
  rw [filesrvPath, Option.bind_eq_some_iff]
  refine exists_congr fun wr => and_congr_right fun _ => ?_
  rw [Option.ite_none_right_eq_some, Option.some.injEq, Prod.mk.injEq]

theorem uiPath_eq_some_iff {root path : CString} :
    uiPath config uri = some (root, path) ↔
      (uri = cstr "/ui" ∨ (cstr "/ui/").isPrefixOf uri) ∧ config.uiDir = some root ∧
        uiScan (uiRel uri) = false ∧ root ++ slash :: uiRel uri = path := by
  rw [uiPath, Option.ite_none_right_eq_some, Option.bind_eq_some_iff]
  refine and_congr_right fun _ => ?_
  constructor
  · rintro ⟨uiDir, hdir, h⟩
    rw [Option.ite_none_left_eq_some, Option.some.injEq, Prod.mk.injEq, Bool.not_eq_true] at h
    obtain ⟨hscan, rfl, hpath⟩ := h
    exact ⟨hdir, hscan, hpath⟩
  · rintro ⟨hdir, hscan, hpath⟩
    exact ⟨root, hdir, by rw [hscan, hpath]; rfl⟩

/-- **Files below a web root.** -/
theorem filesrv_inside_iff (hfile : ∀ w path content, c.readFile w path = .file content →
      NamesFile path) (hdir : RealDir c.configDir) (huri : uri.head? = some slash) :
    (∀ root path, Reads c s (filesrvPath c.configDir config uri) root path →
      Inside pathStyle root path) ↔ ¬ StraysFromWebroot c config s uri := by
  obtain ⟨u, rfl⟩ := List.head?_eq_some_iff.mp huri
  constructor
  · rintro h ⟨wr, b, content, hroot, hpath, hb, hslash, hsafe, hread⟩
    obtain ⟨hstart, hjoin⟩ := pathJoin_singleton c.configDir hb u
    rw [← hjoin] at hread
    have hinside := h _ _ ⟨filesrvPath_eq_some_iff.mpr ⟨wr, hroot, hsafe, rfl, rfl⟩,
      content, by rw [hpath]; exact hread⟩
    rw [hpath] at hinside
    have hbelow : Inside pathStyle (c.configDir ++ [b])
        (pathJoin c.configDir [[b], slash :: u]) := by
      have hnonempty : c.configDir ++ [b] ≠ [] :=
        List.append_ne_nil_of_right_ne_nil _ (List.cons_ne_nil b [])
      have hnames := hfile s.w _ content hread
      rw [pathJoin_pair, hstart] at hnames ⊢
      exact inside_joinElement hnonempty hsafe hnames
    obtain ⟨names, hne, hnames, hdir⟩ := hdir.resolve_left hslash
    obtain ⟨init, n, rfl⟩ := names.eq_nil_or_concat.resolve_left hne
    rw [List.concat_eq_append] at hnames hdir
    rw [hdir] at hbelow hinside
    exact not_inside_rootDir hnames hb hbelow hinside
  · rintro hstray root path ⟨hopened, content, hread⟩
    obtain ⟨wr, hroot, hsafe, rfl, rfl⟩ := filesrvPath_eq_some_iff.mp hopened
    have hnames := hfile s.w _ content hread
    have hne : c.configDir ≠ [] := by
      rcases hdir with hdir | ⟨names, hne, -, hdir⟩
      · rw [hdir]
        exact List.cons_ne_nil slash []
      · obtain ⟨n, names, rfl⟩ := List.exists_cons_of_ne_nil hne
        rw [hdir]
        exact List.cons_ne_nil slash _
    by_cases hwr : wr.path = [slash]
    · have hstart : joinElement (startText c.configDir [[slash], slash :: u]) [slash] = [] := by
        rw [joinElement_slash, startText, if_neg]
        exact fun h => h.2 rfl
      rw [hwr] at hread hnames ⊢
      rw [pathJoin_pair, hstart] at hnames ⊢
      by_cases hu : u = []
      · subst hu
        exact absurd rfl hnames.ne_nil
      · have htext : joinElement [] (slash :: u) = joinElement [slash] (slash :: u) := by
          have hempty := joinElement_of_tail (r := []) (p := slash :: u) hu
          have hslash := joinElement_of_tail (r := [slash]) (p := slash :: u) hu
          exact hempty.trans hslash.symm
        rw [htext] at hnames ⊢
        exact inside_joinElement (List.cons_ne_nil slash []) hsafe hnames
    · have hone : wr.path.tail = [] → wr.path.head? ≠ some slash → wr.path ≠ [] →
          c.configDir.getLast? = some slash := by
        intro htail hhead hempty
        obtain ⟨b, p, hp⟩ := List.exists_cons_of_ne_nil hempty
        rw [hp] at htail hhead
        obtain rfl : p = [] := htail
        have hb : b ≠ slash := fun h => hhead (congrArg some h)
        by_contra hlast
        have hslash : c.configDir ≠ [slash] := by
          intro h
          rw [h] at hlast
          exact hlast rfl
        rw [hp, (pathJoin_singleton c.configDir hb u).2] at hread
        exact hstray ⟨wr, b, content, hroot, hp, hb, hslash, hsafe, hread⟩
      obtain ⟨hnonempty, hrooted, hdirs⟩ := sameDir_rootDir hne hwr hone (slash :: u)
      rw [pathJoin_pair] at hnames ⊢
      exact (inside_congr hrooted hdirs).mpr (inside_joinElement hnonempty hsafe hnames)

/-- **Files of the user interface.** -/
theorem uiServe_inside_iff :
    (∀ root path, Reads c s (uiPath config uri) root path → Inside pathStyle root path) ↔
      ¬ StraysFromUi c config s uri := by
  constructor
  · rintro h ⟨content, hui, hdir, hscan, hread⟩
    have hinside := h [] _ ⟨uiPath_eq_some_iff.mpr ⟨hui, hdir, hscan, rfl⟩, content, hread⟩
    exact absurd hinside.1 Bool.noConfusion
  · rintro hstray root path ⟨hopened, content, hread⟩
    obtain ⟨hui, hdir, hscan, rfl⟩ := uiPath_eq_some_iff.mp hopened
    by_cases hroot : root = []
    · rw [hroot] at hdir hread
      exact absurd ⟨content, hui, hdir, hscan, hread⟩ hstray
    · refine inside_append hroot fun hmem => ?_
      rw [← uiSafe_eq, List.any_eq_false] at hscan
      exact hscan _ hmem (by decide)

/-- **When what is read is inside.** The web root is not a single character below a base directory
other than the root, or there is no file next to it; and the directory of the user interface is not
empty, or there is no file. -/
theorem staysInside_iff (hfile : ∀ w path content, c.readFile w path = .file content →
      NamesFile path) (hdir : RealDir c.configDir) (huri : uri.head? = some slash) :
    StaysInside c config s uri ↔
      ¬ StraysFromWebroot c config s uri ∧ ¬ StraysFromUi c config s uri := by
  rw [← filesrv_inside_iff hfile hdir huri, ← uiServe_inside_iff]
  exact ⟨fun h => ⟨fun root path hr => h root path (Or.inl hr),
    fun root path hr => h root path (Or.inr hr)⟩,
    fun h root path hr => hr.elim (h.1 root path) (h.2 root path)⟩

/-! ### Examples -/

/-- A caster whose configuration is in `/etc/caster`, with a file to serve. -/
def fileCaster (file : CString) : Caster Unit Unit :=
  { smallCaster true with
    configDir := cstr "/etc/caster"
    readFile := fun _ path => if path = file then .file [] else .noFile }

/-- The configuration of the small caster with a web root. -/
def webConfig (path : CString) : Config := { smallConfig with webroots := [⟨path, [slash]⟩] }

theorem realDir_fileCaster (file : CString) : RealDir (fileCaster file).configDir := by
  refine Or.inr ⟨[cstr "etc", cstr "caster"], List.cons_ne_nil _ _, ?_, rfl⟩
  intro n hn
  rcases List.mem_pair.mp hn with rfl | rfl
  · exact ⟨by decide, by decide, by decide⟩
  · exact ⟨by decide, by decide, by decide⟩

theorem namesFile_of_readFile {file : CString} (h : NamesFile file) :
    ∀ w path content, (fileCaster file).readFile w path = .file content → NamesFile path := by
  intro w path content hread
  have hpath : (if path = file then FileRead.file [] else .noFile) = .file content := hread
  split at hpath
  · next heq => rw [heq]; exact h
  · contradiction

theorem staysInside_absolute : StaysInside (fileCaster (cstr "/srv/www/map.html"))
    (webConfig (cstr "/srv/www")) smallServer (cstr "/map.html") := by
  have hfile : NamesFile (cstr "/srv/www/map.html") := ⟨by decide, by decide, by decide⟩
  refine (staysInside_iff (namesFile_of_readFile hfile) (realDir_fileCaster _) rfl).mpr ⟨?_, ?_⟩
  · rintro ⟨wr, b, content, hroot, hpath, -⟩
    obtain rfl : ⟨cstr "/srv/www", [slash]⟩ = wr := Option.some.inj hroot
    have hlong : (cstr "/srv/www").length ≠ 1 := by decide
    exact hlong (congrArg List.length hpath)
  · rintro ⟨content, -, hdir, -⟩
    contradiction

/-- The web root `w` is served from `/etc/casterw`, which is not inside `/etc/caster/w`. -/
theorem not_staysInside_neighbour :
    (∀ w path content, (fileCaster (cstr "/etc/casterw/map.html")).readFile w path =
      .file content → NamesFile path) ∧
    RealDir (fileCaster (cstr "/etc/casterw/map.html")).configDir ∧
    ¬ StaysInside (fileCaster (cstr "/etc/casterw/map.html")) (webConfig (cstr "w")) smallServer
      (cstr "/map.html") := by
  have hfile : NamesFile (cstr "/etc/casterw/map.html") := ⟨by decide, by decide, by decide⟩
  have hdir := realDir_fileCaster (cstr "/etc/casterw/map.html")
  refine ⟨namesFile_of_readFile hfile, hdir, fun h => ?_⟩
  refine (filesrv_inside_iff (namesFile_of_readFile hfile) hdir rfl).mp
    (fun root path hr => h root path (Or.inl hr)) ?_
  exact ⟨⟨cstr "w", [slash]⟩, 0x77, [], rfl, rfl, by decide, by decide, by decide, rfl⟩

end Ntripsrv

end ChilopodCaster
