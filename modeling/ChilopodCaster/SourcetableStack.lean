import ChilopodCaster.Sourcetable
import ChilopodCaster.Lib.Latest

/-!
# The sourcetable stack

A caster has a local sourcetable and those of the casters it relays; `sourcetable.c` keeps them in
a list by decreasing priority. A client sees one aggregated table, in which the first table that
has a mountpoint wins, and where a line of the local table counts only if it is virtual or its
source is live. The stack changes by `_stack_replace`, when a table is fetched, received, reloaded
or dropped.

Whether a source is live is a parameter, a function of the name: that is all `livesource_exists`
looks at. So is the distance between two positions.

## Main definitions

* `Stack.flattenDist`, `Stack.flatten` — the aggregated table, near a position or whole
* `Stack.findMountpoint` — the line of a mountpoint
* `Stack.replace`, `Stack.updateExecute` — changes of the stack
* `Stack.Reachable` — the stacks these changes lead to

## Main results

* `Stack.get_flattenDist` — the aggregated table, mountpoint by mountpoint
* `Stack.flatten_eq_findMountpoint` — the aggregated table is what lookups find
* `Stack.prunesFlatten_iff` — when the table near a position is a part of the whole one
* `Stack.reachable_stack` — what holds of every reachable stack
-/

namespace ChilopodCaster

/-- `sourcetable_stack_t`: the tables by decreasing priority. Each one has a name in its field
`caster`. -/
abbrev Stack (F : Type) := List (Sourcetable F)

namespace Stack

open Sourcetable

variable {F D : Type}

/-! ### Lookups and aggregation -/

/-- `_stack_find_mountpoint`. -/
def findMountpointIn (live : CString → Bool) (stack : Stack F) (mountpoint : CString)
    (isLocal : Bool) : Option (Sourceline F) :=
  if mountpoint = [] then none
  else stack.findSome? fun s =>
    if isLocal ∧ s.caster ≠ some localName then none
    else match s.keyVal.get mountpoint with
      | none => none
      | some np =>
        if isLocal ∨ s.caster ≠ some localName ∨ np.IsVirtual ∨ live np.key then some np else none

/-- `stack_find_mountpoint`. -/
def findMountpoint (live : CString → Bool) (stack : Stack F) (mountpoint : CString) :
    Option (Sourceline F) := findMountpointIn live stack mountpoint false

/-- `stack_find_local_mountpoint`. -/
def findLocalMountpoint (live : CString → Bool) (stack : Stack F) (mountpoint : CString) :
    Option (Sourceline F) := findMountpointIn live stack mountpoint true

/-- `stack_find_pullable`, with the table the line is in. -/
def findPullable (stack : Stack F) (mountpoint : CString) :
    Option (Sourceline F × Sourcetable F) :=
  stack.findSome? fun s =>
    if s.pullable then (s.keyVal.get mountpoint).map fun np => (np, s) else none

/-- Whether a line is within the maximum distance; without a position every line is. -/
def within [LT D] [DecidableLT D] (distance : Pos F → Pos F → D) (pos : Option (Pos F))
    (maxDist : D) (sp : Sourceline F) : Bool :=
  pos.all fun pos => distance sp.pos pos < maxDist

/-- A line of a local table is skipped if it is not live. -/
def skipped (live : CString → Bool) (localTable : Bool) (sp : Sourceline F) : Bool :=
  localTable && (!sp.IsVirtual && !live sp.key)

/-- The inner loop of `stack_flatten_dist`, for one line of a table. -/
def flattenLine (live : CString → Bool) (near : Sourceline F → Bool) (localTable : Bool)
    (r : Sourcetable F) (e : CString × Sourceline F) : Option (Sourcetable F) :=
  if skipped live localTable e.2 then some r
  else match r.keyVal.get e.2.key with
    | some _ => some r
    | none => if near e.2 then r.addDirect e.2 else some r

/-- The outer loop of `stack_flatten_dist`, for one table: the header is that of a local table. -/
def flattenTable (live : CString → Bool) (near : Sourceline F → Bool) (r s : Sourcetable F) :
    Option (Sourcetable F) :=
  s.keyVal.elements.foldlM (flattenLine live near (s.caster = some localName))
    { r with header := if s.caster = some localName then s.header else r.header }

/-- `stack_flatten_dist`. -/
def flattenDist [LT D] [DecidableLT D] (live : CString → Bool) (distance : Pos F → Pos F → D)
    (stack : Stack F) (pos : Option (Pos F)) (maxDist : D) : Option (Sourcetable F) :=
  stack.foldlM (flattenTable live (within distance pos maxDist)) (Sourcetable.new none 0 false)

/-- `stack_flatten`. -/
def flatten [LT D] [DecidableLT D] [Zero D] (live : CString → Bool)
    (distance : Pos F → Pos F → D) (stack : Stack F) : Option (Sourcetable F) :=
  flattenDist live distance stack none 0

/-! ### The aggregated table, mountpoint by mountpoint -/

/-- A line of a table that counts: the table is not the local one, or the line is virtual, or its
source is live. -/
def Eligible (live : CString → Bool) (s : Sourcetable F) (sp : Sourceline F) : Prop :=
  s.caster ≠ some localName ∨ sp.IsVirtual ∨ live sp.key

instance (live : CString → Bool) (s : Sourcetable F) (sp : Sourceline F) :
    Decidable (Eligible live s sp) := inferInstanceAs (Decidable (_ ∨ _))

/-- The line a table has for a mountpoint, if it counts. -/
def eligibleLine (live : CString → Bool) (name : CString) (s : Sourcetable F) :
    Option (Sourceline F) := (s.keyVal.get name).filter (Eligible live s)

theorem get_addDirect {r r' : Sourcetable F} {sp : Sourceline F} (h : r.addDirect sp = some r')
    (name : CString) :
    r'.keyVal.get name = if name = sp.key then some sp else r.keyVal.get name :=
  HashTable.get_add (addDirect_eq_some h).1 name

variable (live : CString → Bool) (near : Sourceline F → Bool)

theorem not_skipped_iff {s : Sourcetable F} {sp : Sourceline F} :
    (!skipped live (s.caster = some localName) sp) = true ↔ Eligible live s sp := by
  simp only [skipped, Eligible, Bool.not_and, Bool.not_not, Bool.or_eq_true, decide_eq_true_eq,
    Bool.not_eq_true', decide_eq_false_iff_not, ne_eq]

/-- A line is added if its name is not there yet, and if it is not skipped and is near. -/
theorem exists_flattenLine (localTable : Bool) {r : Sourcetable F} (hr : r.Counted)
    (e : CString × Sourceline F) :
    ∃ r', flattenLine live near localTable r e = some r' ∧ r'.Counted ∧
      ∀ name, r'.keyVal.get name = (r.keyVal.get name).or
        (if name = e.2.key ∧ (!skipped live localTable e.2 && near e.2) then some e.2
          else none) := by
  rw [flattenLine]
  cases hskip : skipped live localTable e.2 with
  | true => exact ⟨r, rfl, hr, fun name => by rw [if_neg (by simp), Option.or_none]⟩
  | false =>
    rw [if_neg (by simp)]
    cases hget : r.keyVal.get e.2.key with
    | some line =>
      refine ⟨r, rfl, hr, fun name => ?_⟩
      by_cases hname : name = e.2.key
      · rw [hname, hget, Option.some_or]
      · rw [if_neg (by tauto), Option.or_none]
    | none =>
      cases hnear : near e.2 with
      | false => exact ⟨r, rfl, hr, fun name => by rw [if_neg (by simp), Option.or_none]⟩
      | true =>
        obtain ⟨r', hadd⟩ := exists_addDirect hget
        refine ⟨r', hadd, hr.addDirect hadd, fun name => ?_⟩
        rw [get_addDirect hadd]
        by_cases hname : name = e.2.key
        · rw [if_pos hname, if_pos ⟨hname, rfl⟩, hname, hget, Option.none_or]
        · rw [if_neg hname, if_neg (by tauto), Option.or_none]

/-- The loop over the lines of a table, name by name. -/
theorem exists_foldlM_flattenLine (localTable : Bool) (es : List (CString × Sourceline F))
    (hkey : ∀ e ∈ es, e.2.key = e.1) (hnodup : (es.map Prod.fst).Nodup) {r : Sourcetable F}
    (hr : r.Counted) :
    ∃ r', es.foldlM (flattenLine live near localTable) r = some r' ∧ r'.Counted ∧
      ∀ name, r'.keyVal.get name = (r.keyVal.get name).or
        (((es.find? (·.1 = name)).map Prod.snd).filter fun sp =>
          !skipped live localTable sp && near sp) := by
  induction es generalizing r with
  | nil => exact ⟨r, rfl, hr, fun name => (Option.or_none).symm⟩
  | cons e es ih =>
    obtain ⟨hnotin, hnodup⟩ := List.nodup_cons.mp hnodup
    obtain ⟨r₁, hstep, hr₁, hget₁⟩ := exists_flattenLine live near localTable hr e
    obtain ⟨r', hfold, hr', hget⟩ := ih (fun e he => hkey e (List.mem_cons_of_mem _ he)) hnodup hr₁
    refine ⟨r', by rw [List.foldlM_cons, hstep]; exact hfold, hr', fun name => ?_⟩
    rw [hget, hget₁, Option.or_assoc, hkey e List.mem_cons_self]
    congr 1
    by_cases hname : name = e.1
    · -- the key is met once, so the rest of the list has nothing for it
      have hrest : es.find? (·.1 = name) = none := by
        refine List.find?_eq_none.mpr fun e' he' heq => hnotin ?_
        exact List.mem_map.mpr ⟨e', he', (of_decide_eq_true heq).trans hname⟩
      rw [hrest, List.find?_cons_of_pos (by simpa using hname.symm), Option.map_none,
        Option.filter_none, Option.or_none, Option.map_some, Option.filter_some]
      simp only [hname, true_and]
    · rw [List.find?_cons_of_neg (by simpa using Ne.symm hname), if_neg (by tauto), Option.none_or]

/-- One table is merged in: what is not there yet comes from its lines that count and are near. -/
theorem exists_flattenTable {r : Sourcetable F} (hr : r.Counted) (s : Sourcetable F) :
    ∃ r', flattenTable live near r s = some r' ∧ r'.Counted ∧
      ∀ name, r'.keyVal.get name =
        (r.keyVal.get name).or ((eligibleLine live name s).filter near) := by
  have hkey (e : CString × Sourceline F) (he : e ∈ s.keyVal.elements) : e.2.key = e.1 :=
    s.keyed e.1 e.2 (s.keyVal.mem_elements.mp he)
  obtain ⟨r', hfold, hr', hget⟩ := exists_foldlM_flattenLine live near
    (s.caster = some localName) s.keyVal.elements hkey s.keyVal.nodup_elements
    (r := { r with header := if s.caster = some localName then s.header else r.header }) hr
  refine ⟨r', hfold, hr', fun name => ?_⟩
  rw [hget, HashTable.find?_elements, eligibleLine, Option.filter_filter]
  congr 2
  funext sp
  rw [Bool.eq_iff_iff, Bool.and_eq_true, not_skipped_iff, Bool.and_eq_true, decide_eq_true_eq]

/-- The loop over the tables, name by name. -/
theorem exists_foldlM_flattenTable (stack : Stack F) {r : Sourcetable F} (hr : r.Counted) :
    ∃ r', stack.foldlM (flattenTable live near) r = some r' ∧ r'.Counted ∧
      ∀ name, r'.keyVal.get name = (r.keyVal.get name).or
        (stack.findSome? fun s => (eligibleLine live name s).filter near) := by
  induction stack generalizing r with
  | nil => exact ⟨r, rfl, hr, fun name => (Option.or_none).symm⟩
  | cons s stack ih =>
    obtain ⟨r₁, hstep, hr₁, hget₁⟩ := exists_flattenTable live near hr s
    obtain ⟨r', hfold, hr', hget⟩ := ih hr₁
    refine ⟨r', by rw [List.foldlM_cons, hstep]; exact hfold, hr', fun name => ?_⟩
    rw [hget, hget₁, Option.or_assoc, List.findSome?_cons]
    cases (eligibleLine live name s).filter near <;> rfl



variable [LT D] [DecidableLT D]

/-- **The aggregated table, mountpoint by mountpoint.** It is always computed, its virtual lines are
counted, and what it has for a name is the first line of the stack that counts and is near. -/
theorem get_flattenDist (live : CString → Bool) (distance : Pos F → Pos F → D) (stack : Stack F)
    (pos : Option (Pos F)) (maxDist : D) :
    ∃ r, flattenDist live distance stack pos maxDist = some r ∧ r.Counted ∧
      ∀ name, r.keyVal.get name = stack.findSome? fun s =>
        (eligibleLine live name s).filter (within distance pos maxDist) := by
  obtain ⟨r, hfold, hr, hget⟩ := exists_foldlM_flattenTable live (within distance pos maxDist) stack
    (counted_new none 0 false)
  refine ⟨r, hfold, hr, fun name => ?_⟩
  rw [hget, Sourcetable.new, HashTable.get_new, Option.none_or]

/-- **The advertised table is what lookups find.** -/
theorem flatten_eq_findMountpoint [Zero D] (live : CString → Bool) (distance : Pos F → Pos F → D)
    (stack : Stack F) {name : CString} (h : name ≠ []) :
    ∃ r, flatten live distance stack = some r ∧
      r.keyVal.get name = findMountpoint live stack name ∧
      findMountpoint live stack name = stack.findSome? (eligibleLine live name) := by
  obtain ⟨r, hr, -, hget⟩ := get_flattenDist live distance stack none 0
  have hfind : findMountpoint live stack name = stack.findSome? (eligibleLine live name) := by
    rw [findMountpoint, findMountpointIn, if_neg h]
    congr 1
    funext s
    rw [if_neg (by simp), eligibleLine]
    cases s.keyVal.get name with
    | none => rfl
    | some np =>
      rw [Option.filter_some]
      by_cases hel : Eligible live s np
      · rw [if_pos (decide_eq_true hel)]
        exact if_pos (.inr hel)
      · rw [if_neg (mt of_decide_eq_true hel)]
        exact if_neg fun h => hel (h.resolve_left Bool.false_ne_true)
  refine ⟨r, hr, ?_, hfind⟩
  rw [hget, hfind]
  congr 1
  funext s
  cases eligibleLine live name s <;> rfl

/-- A line for the mountpoint `M` at some latitude. -/
def baseLine (lat : String) : CString := cstr ("STR;M;;;;;;;;" ++ lat ++ ";0;0;;;;;;;")

/-- Two casters have the mountpoint `M`; the one with the higher priority has it far away. -/
def farNear : Stack ℤ :=
  (fetch strtoll (cstr "far.example") 2101 false 2 [baseLine "100"] ⟨0, 0⟩).toList ++
    (fetch strtoll (cstr "near.example") 2101 false 1 [baseLine "1"] ⟨0, 0⟩).toList

/-- A distance on integer coordinates. -/
def taxicab (p q : Pos ℤ) : ℤ := |p.lat - q.lat| + |p.lon - q.lon|

theorem flatten_eq_findMountpoint_farNear :
    (findMountpoint (fun _ => false) farNear (cstr "M")).map Sourceline.pos = some ⟨100, 0⟩ ∧
    ∃ r, flatten (fun _ => false) taxicab farNear = some r ∧
      r.keyVal.get (cstr "M") = findMountpoint (fun _ => false) farNear (cstr "M") ∧
      findMountpoint (fun _ => false) farNear (cstr "M") =
        farNear.findSome? (eligibleLine (fun _ => false) (cstr "M")) :=
  ⟨by decide +kernel, flatten_eq_findMountpoint _ _ _ (by decide)⟩

/-! ### The table near a position -/

/-- The lines of the stack that count, for one name. -/
def eligibleLines (live : CString → Bool) (stack : Stack F) (name : CString) :
    List (Sourceline F) := stack.filterMap (eligibleLine live name)

/-- The table near a position is the part of the whole one that is near. -/
def PrunesFlatten [Zero D] (live : CString → Bool) (distance : Pos F → Pos F → D) (stack : Stack F)
    (pos : Pos F) (maxDist : D) : Prop :=
  ∃ r r₀, flattenDist live distance stack (some pos) maxDist = some r ∧
    flatten live distance stack = some r₀ ∧
    ∀ name, r.keyVal.get name =
      (r₀.keyVal.get name).filter fun sp => distance sp.pos pos < maxDist

theorem findSome?_filter_eligibleLine (live : CString → Bool) (stack : Stack F) (name : CString)
    (near : Sourceline F → Bool) :
    (stack.findSome? fun s => (eligibleLine live name s).filter near) =
      (eligibleLines live stack name).find? near := by
  induction stack with
  | nil => rfl
  | cons s stack ih =>
    rw [List.findSome?_cons, ih, eligibleLines, eligibleLines, List.filterMap_cons]
    cases eligibleLine live name s with
    | none => rfl
    | some l =>
      rw [Option.filter_some, List.find?_cons]
      cases near l <;> rfl

/-- Filtering the first element or searching the whole list: the same unless the first element is
refused and a later one is not. -/
theorem head?_filter_eq_find?_iff {α : Type} (p : α → Bool) (l : List α) :
    l.find? p = l.head?.filter p ↔ ∀ a as, l = a :: as → p a ∨ ∀ b ∈ as, ¬ p b := by
  cases l with
  | nil => simp
  | cons a as =>
    rw [List.head?_cons, Option.filter_some, List.find?_cons]
    cases hp : p a with
    | true => simp [hp]
    | false => simp [hp, List.find?_eq_none]

/-- **When the table near a position is a part of the whole one.** It is so exactly when no far line
hides a near one of the same name: wherever the first line of the stack for a name is not near, the
lower ones that count are not either. -/
theorem prunesFlatten_iff [Zero D] (live : CString → Bool) (distance : Pos F → Pos F → D)
    (stack : Stack F) (pos : Pos F) (maxDist : D) :
    PrunesFlatten live distance stack pos maxDist ↔
      ∀ name l ls, eligibleLines live stack name = l :: ls →
        distance l.pos pos < maxDist ∨ ∀ l' ∈ ls, ¬ distance l'.pos pos < maxDist := by
  obtain ⟨r, hr, -, hget⟩ := get_flattenDist live distance stack (some pos) maxDist
  obtain ⟨r₀, hr₀, -, hget₀⟩ := get_flattenDist live distance stack none 0
  have hnear (name : CString) : r.keyVal.get name = (eligibleLines live stack name).find?
      fun sp => distance sp.pos pos < maxDist := by
    rw [hget, findSome?_filter_eligibleLine]
    rfl
  have hwhole (name : CString) :
      r₀.keyVal.get name = (eligibleLines live stack name).head? := by
    rw [hget₀, findSome?_filter_eligibleLine]
    cases eligibleLines live stack name <;> rfl
  have hiff (name : CString) := head?_filter_eq_find?_iff
    (fun sp : Sourceline F => decide (distance sp.pos pos < maxDist))
    (eligibleLines live stack name)
  simp only [decide_eq_true_eq] at hiff
  constructor
  · rintro ⟨_, _, h, h₀, heq⟩ name
    obtain rfl := Option.some.inj (hr.symm.trans h)
    obtain rfl := Option.some.inj (hr₀.symm.trans h₀)
    rw [← hiff, ← hnear, ← hwhole]
    exact heq name
  · intro h
    refine ⟨r, r₀, hr, hr₀, fun name => ?_⟩
    rw [hnear, hwhole, hiff]
    exact h name

/-- Near the origin the table has the near line of `M`, where the whole one has the far line. -/
theorem not_prunesFlatten_farNear :
    ¬ PrunesFlatten (fun _ => false) taxicab farNear ⟨0, 0⟩ 10 := by
  rintro ⟨r, r₀, hr, hr₀, h⟩
  have hnear : (flattenDist (fun _ => false) taxicab farNear (some ⟨0, 0⟩) 10).map
      (fun r => (r.keyVal.get (cstr "M")).map Sourceline.pos) = some (some ⟨1, 0⟩) := by
    decide +kernel
  have hfar : (flatten (fun _ => false) taxicab farNear).map
      (fun r => (r.keyVal.get (cstr "M")).map Sourceline.pos) = some (some ⟨100, 0⟩) := by
    decide +kernel
  rw [hr, Option.map_some, Option.some.injEq, h] at hnear
  rw [hr₀, Option.map_some, Option.some.injEq] at hfar
  obtain ⟨sp, hsp, hpos⟩ := Option.map_eq_some_iff.mp hfar
  rw [hsp, Option.filter_some, hpos, if_neg (by decide), Option.map_none] at hnear
  exact absurd hnear (by simp)

/-! ### Changes of the stack -/

/-- The table `_stack_replace` looks for: the local file, or that of the host and port. -/
def Replaced (host : Option CString) (port : BitVec 32) (isLocal : Bool) (s : Sourcetable F) :
    Prop :=
  (isLocal ∧ s.isLocal ∧ s.filename.isSome) ∨
    (host.isSome ∧ s.caster = host ∧ s.port.setWidth 32 = port)

instance (host : Option CString) (port : BitVec 32) (isLocal : Bool) (s : Sourcetable F) :
    Decidable (Replaced host port isLocal s) := inferInstanceAs (Decidable (_ ∨ _))

/-- A table goes before the first one whose priority is not higher. -/
def insert (newSourcetable : Sourcetable F) (stack : Stack F) : Stack F :=
  stack.orderedInsert (fun new s => new.priority ≥ s.priority) newSourcetable

/-- `_stack_replace`. -/
def replace (stack : Stack F) (host : Option CString) (port : BitVec 32)
    (newSourcetable : Option (Sourcetable F)) (compareTv isLocal : Bool) : Stack F :=
  match stack.find? (Replaced host port isLocal ·), newSourcetable with
  | none, none => stack
  | none, some new => insert new stack
  | some _, none => stack.eraseP (Replaced host port isLocal ·)
  | some r, some new =>
    if !compareTv || r.fetchTime.lt new.fetchTime then
      insert new (stack.eraseP (Replaced host port isLocal ·))
    else stack

/-- `stack_replace_host`. -/
def replaceHost (stack : Stack F) (host : CString) (port : BitVec 32)
    (newSourcetable : Option (Sourcetable F)) : Stack F :=
  replace stack (some host) port newSourcetable false false

/-- `stack_replace_local`. -/
def replaceLocal (stack : Stack F) (newSourcetable : Option (Sourcetable F)) : Stack F :=
  replace stack none 0 newSourcetable false true

/-- `sourcetable_update_execute`: the status and the new stack; `none` where the parser of the table
crashes. -/
def updateExecute (scanFloat : CString → Option F) (text : Json → CString)
    (isoDate : CString → Option Timeval) (stack : Stack F) (j : Json) : Option (ℕ × Stack F) :=
  (fromJson scanFloat text isoDate j).map fun
    | none => (200, stack)
    | some s => (200, replace stack s.caster (s.port.setWidth 32) (some s) true false)

/-! ### Reachable stacks -/

/-- Where a table of the stack comes from: the local file, or another caster. -/
def Origin (s : Sourcetable F) : Prop :=
  (s.isLocal = true ∧ s.filename.isSome ∧ s.caster = some localName ∧ s.port = 0) ∨
    (s.isLocal = false ∧ s.caster ≠ some localName)

/-- What holds of every reachable stack. -/
structure WellFormed (stack : Stack F) : Prop where
  sorted : stack.Pairwise fun s t => s.priority ≥ t.priority
  unique : stack.Pairwise fun s t => ¬ (s.caster = t.caster ∧ s.port = t.port)
  origin : ∀ s ∈ stack, Origin s
  counted : ∀ s ∈ stack, s.Counted

theorem replaced_host_iff {host : Option CString} {port : BitVec 32} {s : Sourcetable F} :
    Replaced host port false s ↔
      host.isSome ∧ s.caster = host ∧ s.port.setWidth 32 = port := by
  simp [Replaced]

theorem replaced_local_iff {port : BitVec 32} {s : Sourcetable F} :
    Replaced none port true s ↔ s.isLocal = true ∧ s.filename.isSome := by
  simp [Replaced]

/-- At most one table is local, since it has a name of its own. -/
theorem WellFormed.oneLocal {stack : Stack F} (h : WellFormed stack) :
    stack.Pairwise fun s t => ¬ (s.isLocal = true ∧ t.isLocal = true) := by
  refine List.Pairwise.imp_of_mem (fun {s t} hs ht hst hlocal => hst ?_) h.unique
  rcases h.origin s hs with ⟨-, -, hsn, hsp⟩ | ⟨hs, -⟩
  · rcases h.origin t ht with ⟨-, -, htn, htp⟩ | ⟨ht, -⟩
    · exact ⟨hsn.trans htn.symm, hsp.trans htp.symm⟩
    · rw [hlocal.2] at ht; contradiction
  · rw [hlocal.1] at hs; contradiction

theorem WellFormed.sublist {stack stack' : Stack F} (h : WellFormed stack)
    (hsub : stack'.Sublist stack) : WellFormed stack' where
  sorted := h.sorted.sublist hsub
  unique := h.unique.sublist hsub
  origin s hs := h.origin s (hsub.subset hs)
  counted s hs := h.counted s (hsub.subset hs)

theorem WellFormed.insert {stack : Stack F} (h : WellFormed stack) {new : Sourcetable F}
    (hnew : ∀ s ∈ stack, ¬ (s.caster = new.caster ∧ s.port = new.port)) (ho : Origin new)
    (hc : new.Counted) : WellFormed (insert new stack) where
  sorted := by
    have htotal : Std.Total fun s t : Sourcetable F => s.priority ≥ t.priority :=
      ⟨fun s t => le_total t.priority s.priority⟩
    have htrans : IsTrans (Sourcetable F) fun s t => s.priority ≥ t.priority :=
      ⟨fun _ _ _ hst htu => le_trans htu hst⟩
    exact h.sorted.orderedInsert new stack
  unique := by
    refine (List.perm_orderedInsert _ new stack).symm.pairwise ?_ fun hst => ?_
    · exact List.pairwise_cons.mpr ⟨fun s hs heq => hnew s hs ⟨heq.1.symm, heq.2.symm⟩, h.unique⟩
    · exact fun heq => hst ⟨heq.1.symm, heq.2.symm⟩
  origin s hs := by
    rcases List.mem_orderedInsert _ |>.mp hs with rfl | hs
    · exact ho
    · exact h.origin s hs
  counted s hs := by
    rcases List.mem_orderedInsert _ |>.mp hs with rfl | hs
    · exact hc
    · exact h.counted s hs

/-- **What one replacement keeps.** At most one table may be in the place of the new one, and it
must be the one that is looked for. -/
theorem WellFormed.replace {stack : Stack F} (h : WellFormed stack) {host : Option CString}
    {port : BitVec 32} {new : Option (Sourcetable F)} {compareTv isLocal : Bool}
    (hone : stack.Pairwise fun s t =>
      ¬ (Replaced host port isLocal s ∧ Replaced host port isLocal t))
    (hnew : ∀ n ∈ new, Origin n ∧ n.Counted ∧
      ∀ s ∈ stack, s.caster = n.caster ∧ s.port = n.port → Replaced host port isLocal s) :
    WellFormed (replace stack host port new compareTv isLocal) := by
  have herase := h.sublist (List.eraseP_sublist (p := (Replaced host port isLocal ·)) (l := stack))
  have hgone (s : Sourcetable F) (hs : s ∈ stack.eraseP (Replaced host port isLocal ·)) :
      ¬ Replaced host port isLocal s := by
    simpa using Latest.not_of_mem_eraseP (by simpa using hone) hs
  unfold Stack.replace
  split
  · exact h
  · next n hfind =>
    obtain ⟨ho, hc, hplace⟩ := hnew n rfl
    refine h.insert (fun s hs heq => ?_) ho hc
    simpa using List.find?_eq_none.mp hfind s hs (decide_eq_true (hplace s hs heq))
  · exact herase
  · next r n hfind =>
    obtain ⟨ho, hc, hplace⟩ := hnew n rfl
    split
    · refine herase.insert (fun s hs heq => ?_) ho hc
      exact hgone s hs (hplace s (List.eraseP_subset hs) heq)
    · exact h

theorem WellFormed.replace_host {stack : Stack F} (h : WellFormed stack) {host : CString}
    {port : BitVec 32} {new : Option (Sourcetable F)} {compareTv : Bool} (hhost : host ≠ localName)
    (hnew : ∀ n ∈ new, n.Counted ∧ n.caster = some host ∧ n.port.setWidth 32 = port ∧
      n.isLocal = false) :
    WellFormed (Stack.replace stack (some host) port new compareTv false) := by
  refine h.replace (h.unique.imp fun hst heq => ?_) fun n hn => ?_
  · obtain ⟨⟨-, hs, hsp⟩, -, ht, htp⟩ := heq.imp replaced_host_iff.mp replaced_host_iff.mp
    refine hst ⟨hs.trans ht.symm, ?_⟩
    have hport := congrArg BitVec.toNat (hsp.trans htp.symm)
    rw [BitVec.toNat_setWidth_of_le (by decide), BitVec.toNat_setWidth_of_le (by decide)] at hport
    exact BitVec.eq_of_toNat_eq hport
  · obtain ⟨hc, hcaster, hport, hlocal⟩ := hnew n hn
    refine ⟨.inr ⟨hlocal, fun heq => hhost ?_⟩, hc, fun s _ heq => ?_⟩
    · exact Option.some.inj (hcaster.symm.trans heq)
    · exact replaced_host_iff.mpr ⟨rfl, heq.1.trans hcaster, heq.2 ▸ hport⟩

theorem WellFormed.replaceLocal {stack : Stack F} (h : WellFormed stack)
    {new : Option (Sourcetable F)}
    (hnew : ∀ n ∈ new, n.Counted ∧ n.caster = some localName ∧ n.port = 0 ∧ n.isLocal = true ∧
      n.filename.isSome) :
    WellFormed (replaceLocal stack new) := by
  have hone : stack.Pairwise fun s t => ¬ (Replaced none 0 true s ∧ Replaced none 0 true t) :=
    h.oneLocal.imp fun hst heq =>
      hst ⟨(replaced_local_iff.mp heq.1).1, (replaced_local_iff.mp heq.2).1⟩
  refine h.replace hone fun n hn => ?_
  obtain ⟨hc, hcaster, hport, hlocal, hfile⟩ := hnew n hn
  refine ⟨.inl ⟨hlocal, hfile, hcaster, hport⟩, hc, fun s hs heq => ?_⟩
  rcases h.origin s hs with ⟨hl, hf, -⟩ | ⟨-, hne⟩
  · exact replaced_local_iff.mpr ⟨hl, hf⟩
  · exact absurd (heq.1.trans hcaster) hne

/-- The stacks reached from the empty one. A table given to `stack_replace_host` is built by the
operations of the source and bears the host and port, as a fetcher guarantees (`fetch_spec`); a
local table is read from a file; no other table is named `LOCAL`. -/
inductive Reachable (scanFloat : CString → Option F) (text : Json → CString)
    (isoDate : CString → Option Timeval) : Stack F → Prop
  | empty : Reachable scanFloat text isoDate []
  | replaceHost {stack : Stack F} (h : Reachable scanFloat text isoDate stack) {host : CString}
      {port : BitVec 32} {new : Option (Sourcetable F)} (hhost : host ≠ localName)
      (hnew : ∀ n ∈ new, Built scanFloat n ∧ n.caster = some host ∧ n.port.setWidth 32 = port ∧
        n.isLocal = false) :
      Reachable scanFloat text isoDate (stack.replaceHost host port new)
  | replaceLocal {stack : Stack F} (h : Reachable scanFloat text isoDate stack)
      {new : Option (Sourcetable F)}
      (hnew : ∀ n ∈ new, ∃ filename content priority,
        read scanFloat filename content priority = some n) :
      Reachable scanFloat text isoDate (stack.replaceLocal new)
  | updateExecute {stack stack' : Stack F} (h : Reachable scanFloat text isoDate stack) {j : Json}
      {status : ℕ}
      (hlocal : ∀ n, fromJson scanFloat text isoDate j = some (some n) → n.caster ≠ some localName)
      (hstep : stack.updateExecute scanFloat text isoDate j = some (status, stack')) :
      Reachable scanFloat text isoDate stack'

variable {scanFloat : CString → Option F} {text : Json → CString}
  {isoDate : CString → Option Timeval}

theorem WellFormed.updateExecute {stack stack' : Stack F} (h : WellFormed stack) {j : Json}
    {status : ℕ}
    (hlocal : ∀ n, fromJson scanFloat text isoDate j = some (some n) → n.caster ≠ some localName)
    (hstep : stack.updateExecute scanFloat text isoDate j = some (status, stack')) :
    WellFormed stack' := by
  obtain ⟨table, hjson, hreplace⟩ := Option.map_eq_some_iff.mp hstep
  cases table with
  | none =>
    obtain rfl := (Prod.mk.inj hreplace).2
    exact h
  | some n =>
    obtain rfl := (Prod.mk.inj hreplace).2
    obtain ⟨hb, hsome, hl⟩ := fromJson_spec hjson
    obtain ⟨host, hhost⟩ := Option.isSome_iff_exists.mp hsome
    rw [hhost]
    refine h.replace_host (fun heq => hlocal n hjson (hhost.trans (congrArg some heq))) ?_
    rintro _ ⟨⟩
    exact ⟨hb.counted, hhost, rfl, hl⟩

/-- Every reachable stack is well formed. -/
theorem Reachable.wellFormed {stack : Stack F} (h : Reachable scanFloat text isoDate stack) :
    WellFormed stack := by
  induction h with
  | empty => exact ⟨.nil, .nil, by simp, by simp⟩
  | replaceHost _ hhost hnew ih =>
    exact ih.replace_host hhost fun n hn => ⟨(hnew n hn).1.counted, (hnew n hn).2⟩
  | replaceLocal _ hnew ih =>
    refine ih.replaceLocal fun n hn => ?_
    obtain ⟨filename, content, priority, hread⟩ := hnew n hn
    obtain ⟨hb, hcaster, hport, hl, hfile⟩ := read_spec hread
    exact ⟨hb.counted, hcaster, hport, hl, by rw [hfile]; rfl⟩
  | updateExecute _ hlocal hstep ih => exact ih.updateExecute hlocal hstep

/-- **What holds of every reachable stack.** It is sorted by priority, has one table at most for
each caster and port and one local file at most, and counts the virtual lines of each table. The
distances of any aggregated table then fill exactly the array that was allocated for them. -/
theorem reachable_stack {E : Type} [LT E] [DecidableLT E] {stack : Stack F}
    (h : Reachable scanFloat text isoDate stack) :
    stack.Pairwise (fun s t => s.priority ≥ t.priority) ∧
    stack.Pairwise (fun s t => ¬ (s.caster = t.caster ∧ s.port = t.port)) ∧
    stack.Pairwise (fun s t => ¬ ((s.isLocal = true ∧ s.filename.isSome) ∧
      t.isLocal = true ∧ t.filename.isSome)) ∧
    (∀ s ∈ stack, s.nvirtual = s.keyVal.elements.countP (·.2.IsVirtual)) ∧
    ∀ (live : CString → Bool) (distance : Pos F → Pos F → D) (pos : Option (Pos F)) (maxDist : D),
      ∃ r, flattenDist live distance stack pos maxDist = some r ∧
        ∀ (distance' : Pos F → Pos F → E) (pos' : Pos F), ∃ d, r.findPos distance' pos' = some d ∧
          d.Full ∧ (d.distArray.length : ℤ) = r.nentries true := by
  have hwf := h.wellFormed
  refine ⟨hwf.sorted, hwf.unique, hwf.oneLocal.imp fun hst heq => hst ⟨heq.1.1, heq.2.1⟩,
    hwf.counted, fun live distance pos maxDist => ?_⟩
  obtain ⟨r, hr, hc, -⟩ := get_flattenDist live distance stack pos maxDist
  refine ⟨r, hr, fun distance' pos' => ?_⟩
  obtain ⟨d, hd, hfull, hlen, -⟩ := findPos_fills distance' hc pos'
  exact ⟨d, hd, hfull, hlen⟩

/-- A caster and a local file. -/
def hostAndLocal : Stack ℤ :=
  replaceLocal
    (replaceHost [] (cstr "far.example") 2101
      (fetch strtoll (cstr "far.example") 2101 false 2 [baseLine "100"] ⟨0, 0⟩))
    (read strtoll (cstr "sourcetable.dat") (baseLine "5") 9)

theorem reachable_hostAndLocal :
    hostAndLocal.map (·.priority) = [9, 2] ∧
    hostAndLocal.Pairwise fun s t => ¬ (s.caster = t.caster ∧ s.port = t.port) := by
  have hhost (n : Sourcetable ℤ) (hn : n ∈ fetch strtoll (cstr "far.example") 2101 false 2
      [baseLine "100"] ⟨0, 0⟩) : Built strtoll n ∧ n.caster = some (cstr "far.example") ∧
      n.port.setWidth 32 = 2101#32 ∧ n.isLocal = false := by
    obtain ⟨hb, hcaster, hport, hlocal⟩ := fetch_spec hn
    exact ⟨hb, hcaster, by rw [hport]; rfl, hlocal⟩
  have hreach : Reachable strtoll (fun _ => []) (fun _ => none) hostAndLocal := by
    rw [hostAndLocal]
    exact .replaceLocal (.replaceHost .empty (by decide) hhost) fun n hn => ⟨_, _, _, hn⟩
  exact ⟨by decide +kernel, (reachable_stack (D := ℤ) (E := ℤ) hreach).2.1⟩

end Stack

end ChilopodCaster
