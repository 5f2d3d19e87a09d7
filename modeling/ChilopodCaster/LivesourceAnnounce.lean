import ChilopodCaster.LivesourceTable
import Mathlib.Logic.Function.Basic

/-!
# Changes of the livesource table, and their announcement

Each change of the local table is numbered, and should be announced to the other nodes by one
message with its number, from which a node whose copy is up to date gets the new table. The tables
are compared as maps from mountpoints to states and types.

A change is announced except in one case: the message for a source that is made on demand is built
only if `*jp` is not null, where `*jp` has just been set to null.

## Main definitions

* `Livesources.localMap`, `LivesourcesRemote.map` — a table and a copy of it, as maps
* `Livesources.Op`, `Livesources.step` — the operations that change the local table
* `Livesources.Run` — the runs of a node
* `Livesources.Transition.Announced` — a step that is announced

## Main results

* `Livesources.step_cases` — what an operation can do
* `LivesourcesRemote.applyDiff_json` — what a message does to a copy
* `Livesources.run_announced_iff` — the runs in which every change is announced
-/

namespace ChilopodCaster

/-! ### Tables as maps -/

/-- The state and type of a livesource, as a copy may hold them. -/
abbrev LivesourceView := Option LivesourceState × Option LivesourceType

/-- The state and type of a livesource. -/
def Livesource.view (this : Livesource) : LivesourceView := (some this.state, some this.type)

/-- The local table as a map. -/
def Livesources.localMap (this : Livesources) (mountpoint : CString) : Option LivesourceView :=
  (this.hash.get mountpoint).bind fun id => this.heap[id]?.map Livesource.view

/-- A copy as a map. -/
def LivesourcesRemote.map (this : LivesourcesRemote) (mountpoint : CString) :
    Option LivesourceView :=
  (this.hash.get mountpoint).map fun lr => (lr.state, lr.type)

/-- A copy is up to date. -/
def LivesourcesRemote.CopyOf (this : LivesourcesRemote) (livesources : Livesources) : Prop :=
  this.startDate = livesources.startDate ∧ this.serial = livesources.serial64 ∧
    this.map = livesources.localMap

/-- What a message says of its mountpoint. -/
def Livesource.announced (this : Livesource) (utype : LivesourceUpdateType) :
    Option LivesourceView := if utype = .del then none else some this.view

/-! ### Operations on the local table -/

namespace Livesources

/-- The operations that change the local table. A session `st` may be null; a livesource is given by
its address. -/
inductive Op
  | connected (mountpoint : CString)
  | findOnDemand (st : Bool) (mountpoint : CString) (onDemand sourcelineOnDemand : Bool)
  | setState (id : ℕ) (state : LivesourceState)
  | del (id : ℕ)

/-- An operation, with the messages it queues. -/
def step (this : Livesources) : Op → Option (Livesources × List Json)
  | .connected mountpoint => (this.connected mountpoint).map Prod.snd
  | .findOnDemand st mountpoint onDemand sourcelineOnDemand =>
    (this.findOnDemand st mountpoint onDemand sourcelineOnDemand).map Prod.snd
  | .setState id state => this.setState id state
  | .del id => this.del id

/-- How operations are called: mountpoints are C strings, and the state of a livesource is set by
the session that owns it, as long as it is registered. -/
def Op.Legal (this : Livesources) : Op → Prop
  | .connected mountpoint => 0 ∉ mountpoint
  | .findOnDemand _ mountpoint _ _ => 0 ∉ mountpoint
  | .setState id _ => ∃ l, this.heap[id]? = some l ∧ this.hash.get l.mountpoint = some id
  | .del _ => True

/-- The operation makes a source on demand. -/
def Op.Creates (this : Livesources) : Op → Prop
  | .findOnDemand st mountpoint onDemand sourcelineOnDemand =>
    this.CreatesOnDemand st mountpoint onDemand onDemand sourcelineOnDemand
  | _ => False

/-- A livesource is filed under its name, and texts are C strings. -/
structure Sound (this : Livesources) : Prop where
  filed : ∀ m id, this.hash.get m = some id → ∃ l, this.heap[id]? = some l ∧ l.mountpoint = m
  names : ∀ m id, this.hash.get m = some id → 0 ∉ m
  startDate : 0 ∉ this.startDate
  hostname : 0 ∉ this.hostname

variable {this this' : Livesources} {id : ℕ} {l : Livesource} {q : List Json}

theorem sound_new {hostname startDate : CString} (hd : 0 ∉ startDate) (hh : 0 ∉ hostname) :
    Sound (new hostname startDate) where
  filed m id h := by rw [new, HashTable.get_new] at h; contradiction
  names m id h := by rw [new, HashTable.get_new] at h; contradiction
  startDate := hd
  hostname := hh

theorem localMap_eq_none_iff (hs : Sound this) {m : CString} :
    this.localMap m = none ↔ this.hash.get m = none := by
  rw [localMap]
  cases hget : this.hash.get m with
  | none => simp
  | some id =>
    obtain ⟨l, hl, -⟩ := hs.filed m id hget
    simp [hl]

/-- An address is filed under one name. -/
theorem ne_of_get (hs : Sound this) (hl : this.heap[id]? = some l) {m : CString} {id' : ℕ}
    (hget : this.hash.get m = some id') (hm : m ≠ l.mountpoint) : id ≠ id' := by
  rintro rfl
  obtain ⟨l', hl', rfl⟩ := hs.filed m id hget
  rw [hl, Option.some.injEq] at hl'
  exact hm (by rw [hl'])

/-- One change of the table: what a livesource is announced as, its mountpoint becomes. A
mountpoint is added if it was not there, and only then. -/
structure Changes (this : Livesources) (l : Livesource) (utype : LivesourceUpdateType)
    (this' : Livesources) : Prop where
  sound : Sound this'
  serial : this'.serial = this.serial + 1
  startDate : this'.startDate = this.startDate
  hostname : this'.hostname = this.hostname
  kind : utype ≠ .none
  name : 0 ∉ l.mountpoint
  added : utype = .add ↔ this.localMap l.mountpoint = none
  map : this'.localMap = Function.update this.localMap l.mountpoint (l.announced utype)

/-- The serial goes on by one in 64 bits, too. -/
theorem Changes.serial64 {utype : LivesourceUpdateType} (h : this.Changes l utype this') :
    this'.serial64 = this.serial64 + 1 := by
  rw [Livesources.serial64, h.serial, BitVec.ofNat_add]
  rfl

theorem changes_register (hs : Sound this) (hname : 0 ∉ l.mountpoint)
    (h : this.register l = some this') :
    this.Changes l .add { this' with serial := this'.serial + 1 } := by
  obtain ⟨hash, hadd, rfl⟩ := Option.map_eq_some_iff.mp h
  have hold {m : CString} {id : ℕ} (hget : this.hash.get m = some id) :
      (this.heap ++ [l])[id]? = this.heap[id]? := by
    obtain ⟨l', hl', -⟩ := hs.filed m id hget
    exact List.getElem?_append_left (List.getElem?_eq_some_iff.mp hl').1
  have hnew : (this.heap ++ [l])[this.heap.length]? = some l := List.getElem?_concat_length
  refine ⟨⟨fun m id hget => ?_, fun m id hget => ?_, hs.startDate, hs.hostname⟩, rfl, rfl, rfl,
    by decide, hname, ?_, ?_⟩
  · rw [HashTable.get_add hadd] at hget
    split at hget
    · next hm =>
      obtain rfl := Option.some.inj hget
      exact ⟨l, hnew, hm.symm⟩
    · rw [hold hget]
      exact hs.filed m id hget
  · rw [HashTable.get_add hadd] at hget
    split at hget
    · next hm => rwa [hm]
    · exact hs.names m id hget
  · rw [localMap_eq_none_iff hs, HashTable.get_eq_none_of_add hadd]
    simp
  · funext m
    rw [localMap, HashTable.get_add hadd]
    by_cases hm : m = l.mountpoint
    · rw [if_pos hm, hm, Function.update_self, Option.bind_some, hnew, Option.map_some]
      rfl
    · rw [if_neg hm, Function.update_of_ne hm, localMap]
      cases hget : this.hash.get m with
      | none => rfl
      | some id => rw [Option.bind_some, Option.bind_some, hold hget]

theorem changes_set (hs : Sound this) {l' : Livesource} (hl : this.heap[id]? = some l)
    (hget : this.hash.get l.mountpoint = some id) (hname : l'.mountpoint = l.mountpoint) :
    this.Changes l' .status
      { this with heap := this.heap.set id l', serial := this.serial + 1 } := by
  have hset : (this.heap.set id l')[id]? = some l' := by
    rw [List.getElem?_set_self (List.getElem?_eq_some_iff.mp hl).1]
  refine ⟨⟨fun m id' hget' => ?_, hs.names, hs.startDate, hs.hostname⟩, rfl, rfl, rfl, by decide,
    hname ▸ hs.names _ _ hget, ?_, ?_⟩
  · by_cases hm : m = l.mountpoint
    · rw [hm, hget] at hget'
      obtain rfl := Option.some.inj hget'
      exact ⟨l', hset, hname.trans hm.symm⟩
    · dsimp only
      rw [List.getElem?_set_ne (ne_of_get hs hl hget' hm)]
      exact hs.filed m id' hget'
  · rw [hname, localMap_eq_none_iff hs, hget]
    simp
  · funext m
    rw [localMap, hname]
    by_cases hm : m = l.mountpoint
    · rw [hm, Function.update_self, hget, Option.bind_some, hset]
      rfl
    · rw [Function.update_of_ne hm, localMap]
      cases hget' : this.hash.get m with
      | none => rfl
      | some id' =>
        rw [Option.bind_some, Option.bind_some, List.getElem?_set_ne (ne_of_get hs hl hget' hm)]

theorem changes_del (hs : Sound this) (h : this.del id = some (this', q)) :
    ∃ l, this.Changes l .del this' ∧ q = [this.updateJson l .del] := by
  obtain ⟨l, hl, h⟩ := Option.bind_eq_some_iff.mp h
  obtain ⟨hash, hdel, h⟩ := Option.bind_eq_some_iff.mp h
  obtain ⟨rfl, rfl⟩ := Prod.mk.inj (Option.some.inj h)
  have hget {m : CString} : hash.get m = if m = l.mountpoint then none else this.hash.get m :=
    HashTable.get_del hdel m
  obtain ⟨id', hid'⟩ := HashTable.get_of_del hdel
  refine ⟨l, ⟨⟨fun m id' hget' => ?_, fun m id' hget' => ?_, hs.startDate, hs.hostname⟩,
    rfl, rfl, rfl, by decide, hs.names _ _ hid', ?_, ?_⟩, rfl⟩
  · dsimp only at hget' ⊢
    rw [hget] at hget'
    split at hget'
    · contradiction
    · next hm =>
      rw [List.getElem?_set_ne (ne_of_get hs hl hget' hm)]
      exact hs.filed m id' hget'
  · rw [hget] at hget'
    split at hget'
    · contradiction
    · exact hs.names m id' hget'
  · rw [localMap_eq_none_iff hs, hid']
    simp
  · funext m
    rw [localMap, hget]
    by_cases hm : m = l.mountpoint
    · rw [if_pos hm, hm, Function.update_self]
      rfl
    · rw [if_neg hm, Function.update_of_ne hm, localMap]
      cases hget' : this.hash.get m with
      | none => rfl
      | some id' =>
        rw [Option.bind_some, Option.bind_some, List.getElem?_set_ne (ne_of_get hs hl hget' hm)]

theorem findUnlocked_cases (hs : Sound this) {st find create sourceline : Bool}
    {mountpoint : CString} (hname : 0 ∉ mountpoint) {r : Option ℕ × Livesources × Option Json}
    (h : this.findUnlocked st mountpoint find create sourceline = some r) :
    r.2.2 = none ∧
    ((r.2.1 = this ∧ ¬ this.CreatesOnDemand st mountpoint find create sourceline) ∨
      (this.CreatesOnDemand st mountpoint find create sourceline ∧
        ∃ l, this.Changes l .add r.2.1)) := by
  rw [findUnlocked] at h
  dsimp only at h
  split at h
  · next hcreate =>
    obtain ⟨this', hregister, rfl⟩ := Option.map_eq_some_iff.mp h
    exact ⟨rfl, .inr ⟨hcreate, _, changes_register hs hname hregister⟩⟩
  · next hcreate =>
    obtain rfl := Option.some.inj h
    exact ⟨rfl, .inl ⟨rfl, hcreate⟩⟩

/-- **What an operation can do.** It leaves the table alone and queues nothing; or it makes a
source on demand and queues nothing; or it makes another change and queues the message for it. -/
theorem step_cases (hs : Sound this) {op : Op} (hlegal : op.Legal this)
    (h : this.step op = some (this', q)) :
    (this' = this ∧ q = [] ∧ ¬ op.Creates this) ∨
    (∃ l, this.Changes l .add this' ∧ q = [] ∧ op.Creates this) ∨
    ∃ l utype, this.Changes l utype this' ∧ q = [this.updateJson l utype] ∧ ¬ op.Creates this := by
  cases op with
  | connected mountpoint =>
    obtain ⟨⟨status, _, _⟩, hconnected, heq⟩ := Option.map_eq_some_iff.mp h
    obtain ⟨rfl, rfl⟩ := Prod.mk.inj heq
    obtain ⟨r, hfind, h⟩ := Option.bind_eq_some_iff.mp hconnected
    obtain ⟨-, ⟨hsame, -⟩ | ⟨hcreate, -⟩⟩ := findUnlocked_cases hs hlegal hfind
    · rw [hsame] at h
      split at h
      · obtain ⟨-, heq⟩ := Prod.mk.inj (Option.some.inj h)
        obtain ⟨rfl, rfl⟩ := Prod.mk.inj heq
        exact .inl ⟨rfl, rfl, fun h => h⟩
      · obtain ⟨this₁, hregister, h⟩ := Option.bind_eq_some_iff.mp h
        obtain ⟨-, heq⟩ := Prod.mk.inj (Option.some.inj h)
        obtain ⟨rfl, rfl⟩ := Prod.mk.inj heq
        have hchange := changes_register (l := .new mountpoint .direct .running) hs hlegal hregister
        refine .inr (.inr ⟨_, .add, hchange, ?_, fun h => h⟩)
        obtain ⟨hash, -, rfl⟩ := Option.map_eq_some_iff.mp hregister
        rfl
    · -- `livesource_connected` does not ask for a source to be made
      exact absurd hcreate.2.2.1 Bool.false_ne_true
  | findOnDemand st mountpoint onDemand sourcelineOnDemand =>
    obtain ⟨⟨found, _, _⟩, hfind, heq⟩ := Option.map_eq_some_iff.mp h
    obtain ⟨rfl, rfl⟩ := Prod.mk.inj heq
    obtain ⟨r, hunlocked, heq⟩ := Option.map_eq_some_iff.mp hfind
    obtain ⟨-, heq⟩ := Prod.mk.inj heq
    obtain ⟨rfl, rfl⟩ := Prod.mk.inj heq
    obtain ⟨hjp, ⟨hsame, hcreate⟩ | ⟨hcreate, l, hchange⟩⟩ :=
      findUnlocked_cases hs hlegal hunlocked
    · exact .inl ⟨hsame, by rw [hjp]; rfl, hcreate⟩
    · exact .inr (.inl ⟨l, hchange, by rw [hjp]; rfl, hcreate⟩)
  | setState id state =>
    obtain ⟨l, hl, hget⟩ := hlegal
    rw [step, setState, hl, Option.bind_eq_bind, Option.bind_some] at h
    split at h
    · obtain ⟨rfl, rfl⟩ := Prod.mk.inj (Option.some.inj h)
      exact .inr (.inr ⟨_, .status, changes_set hs hl hget rfl, rfl, fun h => h⟩)
    · obtain ⟨rfl, rfl⟩ := Prod.mk.inj (Option.some.inj h)
      exact .inl ⟨rfl, rfl, fun h => h⟩
  | del id =>
    obtain ⟨l, hchange, rfl⟩ := changes_del hs h
    exact .inr (.inr ⟨l, .del, hchange, rfl, fun h => h⟩)

end Livesources

/-! ### A difference received -/

namespace LivesourcesRemote

variable (text : Json → CString) {lrlist : LivesourcesRemote} {l : Livesource}
  {utype : LivesourceUpdateType}

theorem convertLivesource_json (mountpoint : CString) (hu : utype ≠ .del) :
    convertLivesource text mountpoint (l.json utype) =
      some ⟨mountpoint, some l.state, some l.type⟩ := by
  have htype : (l.json utype).objectGet (cstr "type") = .string l.type.text := by
    cases utype with
    | del => contradiction
    | _ => rfl
  have hstate : (l.json utype).objectGet (cstr "state") = .string l.state.text := by
    cases utype with
    | del => contradiction
    | _ => rfl
  have htype' : 0 ∉ l.type.text := by cases l.type <;> decide
  have hstate' : 0 ∉ l.state.text := by cases l.state <;> decide
  rw [convertLivesource, htype, hstate, Json.getString_string text htype',
    Json.getString_string text hstate', Option.bind_eq_bind, Option.bind_some, Option.bind_some,
    convertState_text, convertType_text]
  rfl

theorem map_eq_none_iff {m : CString} : lrlist.map m = none ↔ lrlist.hash.get m = none :=
  Option.map_eq_none_iff

/-- **What a difference does to a copy**: a mountpoint is added if it is not there, changed or
deleted if it is, and then becomes what the message says. -/
theorem applyDiff_json (hu : utype ≠ .none)
    (hok : utype = .add ↔ lrlist.map l.mountpoint = none) :
    ∃ lrlist', lrlist.applyDiff text utype.text l.mountpoint (l.json utype) = some (.ok lrlist') ∧
      lrlist'.startDate = lrlist.startDate ∧ lrlist'.serial = lrlist.serial + 1 ∧
      lrlist'.map = Function.update lrlist.map l.mountpoint (l.announced utype) := by
  rw [map_eq_none_iff] at hok
  cases utype with
  | none => contradiction
  | add =>
    have hget := hok.mp rfl
    obtain ⟨hash, hadd⟩ := HashTable.exists_add hget
      (⟨l.mountpoint, some l.state, some l.type⟩ : LivesourceRemote)
    refine ⟨{ lrlist with hash := hash, serial := lrlist.serial + 1 }, ?_, rfl, rfl, ?_⟩
    · rw [applyDiff, if_pos (by decide), hget, if_neg (by simp),
        convertLivesource_json text _ (by decide), Option.bind_eq_bind, Option.bind_some, hadd]
      rfl
    · funext m
      rw [map, HashTable.get_add hadd]
      by_cases hm : m = l.mountpoint
      · rw [if_pos hm, hm, Function.update_self]
        rfl
      · rw [if_neg hm, Function.update_of_ne hm, map]
  | del =>
    obtain ⟨lr, hget⟩ := Option.ne_none_iff_exists'.mp (mt hok.mpr (by decide))
    obtain ⟨hash, hdel⟩ := HashTable.exists_del hget
    refine ⟨{ lrlist with hash := hash, serial := lrlist.serial + 1 }, ?_, rfl, rfl, ?_⟩
    · rw [applyDiff, if_neg (by decide), if_pos (by decide), hdel]
    · funext m
      rw [map, HashTable.get_del hdel]
      by_cases hm : m = l.mountpoint
      · rw [if_pos hm, hm, Function.update_self]
        rfl
      · rw [if_neg hm, Function.update_of_ne hm, map]
  | status =>
    obtain ⟨lr, hget⟩ := Option.ne_none_iff_exists'.mp (mt hok.mpr (by decide))
    refine ⟨{ lrlist with
      hash := lrlist.hash.modify l.mountpoint fun _ => ⟨l.mountpoint, some l.state, some l.type⟩
      serial := lrlist.serial + 1 }, ?_, rfl, rfl, ?_⟩
    · rw [applyDiff, if_neg (by decide), if_neg (by decide), if_pos (by decide), hget,
        if_neg (by simp), convertLivesource_json text _ (by decide)]
      rfl
    · funext m
      rw [map, HashTable.get_modify]
      by_cases hm : m = l.mountpoint
      · rw [if_pos hm, hm, hget, Function.update_self]
        rfl
      · rw [if_neg hm, Function.update_of_ne hm, map]

theorem applyDiff_json_refused (hu : utype ≠ .none)
    (hok : ¬ (utype = .add ↔ lrlist.map l.mountpoint = none)) :
    ∃ status, lrlist.applyDiff text utype.text l.mountpoint (l.json utype) =
      some (.error status) := by
  rw [map_eq_none_iff] at hok
  cases utype with
  | none => contradiction
  | add =>
    obtain ⟨lr, hget⟩ := Option.ne_none_iff_exists'.mp fun h => hok ⟨fun _ => h, fun _ => rfl⟩
    exact ⟨404, by rw [applyDiff, if_pos (by decide), hget, if_pos (by simp)]⟩
  | del =>
    have hget : lrlist.hash.get l.mountpoint = none := by_contra fun h => hok ⟨by simp, by simp [h]⟩
    have hdel : lrlist.hash.del l.mountpoint = none := by
      rw [Option.eq_none_iff_forall_ne_some]
      intro hash hdel
      obtain ⟨lr, hlr⟩ := HashTable.get_of_del hdel
      rw [hget] at hlr
      contradiction
    exact ⟨503, by rw [applyDiff, if_neg (by decide), if_pos (by decide), hdel]⟩
  | status =>
    have hget : lrlist.hash.get l.mountpoint = none := by_contra fun h => hok ⟨by simp, by simp [h]⟩
    refine ⟨503, ?_⟩
    rw [applyDiff, if_neg (by decide), if_neg (by decide), if_pos (by decide), hget,
      if_pos (by simp)]

end LivesourcesRemote

namespace Livesources

variable (text : Json → CString) {this r : Livesources} {l : Livesource}
  {utype : LivesourceUpdateType} {lrlist : LivesourcesRemote}

theorem text_ne_checkserial (utype : LivesourceUpdateType) : utype.text ≠ cstr "checkserial" := by
  cases utype <;> decide

/-- A difference is looked at if its date and serial are those of the copy. -/
theorem updateExecuteDiff_updateJson (hs : Sound this) (hname : 0 ∉ l.mountpoint)
    (hget : r.remote.get this.hostname = some lrlist) :
    r.updateExecuteDiff text (this.updateJson l utype) this.hostname =
      if this.startDate ≠ lrlist.startDate ∨ this.serial64 ≠ lrlist.serial then some (404, r)
      else (lrlist.applyDiff text utype.text l.mountpoint (l.json utype)).map fun
        | .error status => (status, r)
        | .ok lrlist =>
          (200, { r with remote := r.remote.modify this.hostname fun _ => lrlist }) := by
  have htype : (this.updateJson l utype).objectGet (cstr "type") = .string utype.text := rfl
  have hdate : (this.updateJson l utype).objectGet (cstr "start_date") =
    .string this.startDate := rfl
  have hserial : (this.updateJson l utype).objectGet (cstr "serial") =
    .int this.serial64.toInt := rfl
  have hls : (this.updateJson l utype).objectGet (cstr "livesource") = l.json utype := rfl
  have hmount : (l.json utype).objectGet (cstr "mountpoint") = .string l.mountpoint := rfl
  have hint : (Json.int this.serial64.toInt).isNull = false := rfl
  have hjson : (l.json utype).isNull = false := rfl
  have htext : 0 ∉ utype.text := by cases utype <;> decide
  rw [updateExecuteDiff]
  simp only [htype, hdate, hserial, hls, hmount, hint, hjson, Json.getString_string text htext,
    Json.getString_string text hs.startDate, Json.getString_string text hname, hget,
    Json.getUint64_int, if_neg (text_ne_checkserial utype), Bool.false_eq_true, if_false]
  by_cases hd : this.startDate = lrlist.startDate
  · by_cases hn : this.serial64 = lrlist.serial
    · rw [if_neg (not_not.mpr hd), if_neg (not_not.mpr hn), if_neg (by simp [hd, hn]),
        Option.bind_eq_bind, Option.bind_some]
      rcases lrlist.applyDiff text utype.text l.mountpoint (l.json utype) with _ | _ | _ <;> rfl
    · rw [if_neg (not_not.mpr hd), if_pos hn, if_pos (.inr hn)]
  · rw [if_pos hd, if_pos (.inl hd)]

/-- **A change is announced to a copy**: a node whose copy is up to date accepts the message, and
gets the new table. -/
theorem updateExecuteDiff_changes (hs : Sound this) {this' : Livesources}
    (hchange : this.Changes l utype this') (hget : r.remote.get this.hostname = some lrlist)
    (hcopy : lrlist.CopyOf this) :
    ∃ r' lrlist',
      r.updateExecuteDiff text (this.updateJson l utype) this.hostname = some (200, r') ∧
      r'.remote.get this.hostname = some lrlist' ∧ lrlist'.CopyOf this' := by
  obtain ⟨hdate, hserial, hmap⟩ := hcopy
  obtain ⟨lrlist', hdiff, hdate', hserial', hmap'⟩ := LivesourcesRemote.applyDiff_json text
    hchange.kind (hmap ▸ hchange.added)
  refine ⟨{ r with remote := r.remote.modify this.hostname fun _ => lrlist' }, lrlist', ?_, ?_, ?_⟩
  · rw [updateExecuteDiff_updateJson text hs hchange.name hget,
      if_neg (by simp [hdate, hserial]), hdiff]
    rfl
  · dsimp only
    rw [HashTable.get_modify, if_pos rfl, hget]
    rfl
  · refine ⟨?_, ?_, ?_⟩
    · rw [hdate', hdate, hchange.startDate]
    · rw [hserial', hserial, hchange.serial64]
    · rw [hmap', hmap, hchange.map]

/-! ### Runs of a node -/

/-- A step of a run. -/
structure Transition where
  pre : Livesources
  op : Op
  post : Livesources
  queued : List Json

/-- Two states of a node with the same local table: its copies of other tables, and the
subscribers of its sources, may differ. -/
def SameTable (this this' : Livesources) : Prop :=
  this'.hash = this.hash ∧ this'.serial = this.serial ∧ this'.startDate = this.startDate ∧
    this'.hostname = this.hostname ∧
    ∀ id : ℕ, (this'.heap[id]?.map fun l => (l.mountpoint, l.view)) =
      this.heap[id]?.map fun l => (l.mountpoint, l.view)

/-- The runs of a node from a new table, with the steps of the operations. -/
inductive Run (hostname startDate : CString) : List Transition → Livesources → Prop
  | new : Run hostname startDate [] (new hostname startDate)
  | step {tr : List Transition} {this this' : Livesources} {op : Op} {queued : List Json}
      (h : Run hostname startDate tr this) (hlegal : op.Legal this)
      (hstep : this.step op = some (this', queued)) :
      Run hostname startDate (tr ++ [⟨this, op, this', queued⟩]) this'
  | other {tr : List Transition} {this this' : Livesources} (h : Run hostname startDate tr this)
      (hsame : this.SameTable this') : Run hostname startDate tr this'

/-- A step that is announced, if it has a number: one message is queued, which has the serial of
before the step, and from which a copy that is up to date gets the table of after the step. -/
def Transition.Announced (text : Json → CString) (t : Transition) : Prop :=
  t.post.serial ≠ t.pre.serial →
    ∃ j, t.queued = [j] ∧ (j.objectGet (cstr "serial")).getUint64 = t.pre.serial64 ∧
      ∀ (r : Livesources) (lrlist : LivesourcesRemote),
        r.remote.get t.pre.hostname = some lrlist → lrlist.CopyOf t.pre →
        ∃ r' lrlist', r.updateExecuteDiff text j t.pre.hostname = some (200, r') ∧
          r'.remote.get t.pre.hostname = some lrlist' ∧ lrlist'.CopyOf t.post

theorem SameTable.localMap {this this' : Livesources} (h : this.SameTable this') :
    this'.localMap = this.localMap := by
  obtain ⟨hhash, -, -, -, hheap⟩ := h
  funext m
  rw [Livesources.localMap, Livesources.localMap, hhash]
  cases this.hash.get m with
  | none => rfl
  | some id =>
    have hview := congrArg (Option.map Prod.snd) (hheap id)
    rwa [Option.map_map, Option.map_map] at hview

theorem Sound.sameTable {this this' : Livesources} (hs : Sound this) (h : this.SameTable this') :
    Sound this' := by
  obtain ⟨hhash, -, hdate, hhost, hheap⟩ := h
  refine ⟨fun m id hget => ?_, fun m id hget => ?_, hdate ▸ hs.startDate, hhost ▸ hs.hostname⟩
  · rw [hhash] at hget
    obtain ⟨l, hl, hm⟩ := hs.filed m id hget
    have hsome := hheap id
    rw [hl, Option.map_some] at hsome
    obtain ⟨l', hl', heq⟩ := Option.map_eq_some_iff.mp hsome
    exact ⟨l', hl', (congrArg Prod.fst heq).trans hm⟩
  · exact hs.names m id (hhash ▸ hget)

/-- A step is announced unless it makes a source on demand. -/
theorem announced_iff_not_creates (hs : Sound this) {op : Op} (hlegal : op.Legal this)
    {this' : Livesources} {queued : List Json} (hstep : this.step op = some (this', queued)) :
    Transition.Announced text ⟨this, op, this', queued⟩ ↔ ¬ op.Creates this := by
  rcases step_cases hs hlegal hstep with ⟨rfl, -, hnot⟩ | ⟨l, hchange, rfl, hcreate⟩ |
    ⟨l, utype, hchange, rfl, hnot⟩
  · exact ⟨fun _ => hnot, fun _ hne => absurd rfl hne⟩
  · refine ⟨fun h => ?_, fun hnot => absurd hcreate hnot⟩
    obtain ⟨j, hj, -⟩ := h (by rw [hchange.serial]; exact Nat.succ_ne_self _)
    contradiction
  · refine ⟨fun _ => hnot, fun _ _ => ⟨_, rfl, ?_, fun r lrlist hget hcopy => ?_⟩⟩
    · exact Json.getUint64_int this.serial64
    · exact updateExecuteDiff_changes text hs hchange hget hcopy

theorem Run.sound {hostname startDate : CString} (hd : 0 ∉ startDate) (hh : 0 ∉ hostname)
    {tr : List Transition} (h : Run hostname startDate tr this) : Sound this := by
  induction h with
  | new => exact sound_new hd hh
  | step _ hlegal hstep ih =>
    rcases step_cases ih hlegal hstep with ⟨rfl, -⟩ | ⟨l, hchange, -⟩ | ⟨l, utype, hchange, -⟩
    · exact ih
    · exact hchange.sound
    · exact hchange.sound
  | other _ hsame ih => exact ih.sameTable hsame

/-- **The runs in which every change is announced** are those in which no source is made on
demand. -/
theorem run_announced_iff {hostname startDate : CString} (hd : 0 ∉ startDate) (hh : 0 ∉ hostname)
    {tr : List Transition} (h : Run hostname startDate tr this) :
    (∀ t ∈ tr, t.Announced text) ↔ ∀ t ∈ tr, ¬ t.op.Creates t.pre := by
  induction h with
  | new => simp
  | step hrun hlegal hstep ih =>
    have hstep_iff := announced_iff_not_creates text (hrun.sound hd hh) hlegal hstep
    simp only [List.forall_mem_append, List.forall_mem_singleton, ih, hstep_iff]
  | other _ _ ih => exact ih

/-- A node that was just started. -/
def started : Livesources := new (cstr "node") (cstr "2026-01-01T00:00:00.000Z")

/-- A source connects to a new node. -/
theorem run_announced_iff_connected :
    ∃ t : Transition, Run (cstr "node") (cstr "2026-01-01T00:00:00.000Z") [t] t.post ∧
      t.post.serial = 1 ∧ t.Announced fun _ => [] := by
  have hsome : ((started.step (.connected (cstr "M"))).map (·.1.serial)) = some 1 := by
    decide +kernel
  obtain ⟨⟨post, queued⟩, hstep, hserial⟩ := Option.map_eq_some_iff.mp hsome
  have hnew : Run (cstr "node") (cstr "2026-01-01T00:00:00.000Z") [] started := .new
  have hlegal : (Op.connected (cstr "M")).Legal started := by
    rw [Op.Legal]
    decide
  have hrun := hnew.step hlegal hstep
  refine ⟨_, hrun, hserial, ?_⟩
  refine (run_announced_iff _ (by decide) (by decide) hrun).mpr ?_ _ List.mem_cons_self
  simp [Op.Creates]

/-- A source is asked for on demand: it is filed and the change is numbered, but nothing is
queued. -/
theorem onDemand_not_announced :
    ∃ t : Transition, Run (cstr "node") (cstr "2026-01-01T00:00:00.000Z") [t] t.post ∧
      t.op = .findOnDemand true (cstr "M") true true ∧ ¬ t.Announced fun _ => [] := by
  have hsome : ((started.step (.findOnDemand true (cstr "M") true true)).map fun r =>
      (r.1.serial, r.2.length)) = some (1, 0) := by
    decide +kernel
  obtain ⟨⟨post, queued⟩, hstep, heq⟩ := Option.map_eq_some_iff.mp hsome
  obtain ⟨hserial, hlen⟩ : post.serial = 1 ∧ queued.length = 0 := Prod.mk.inj heq
  have hnew : Run (cstr "node") (cstr "2026-01-01T00:00:00.000Z") [] started := .new
  have hlegal : (Op.findOnDemand true (cstr "M") true true).Legal started := by
    rw [Op.Legal]
    decide
  refine ⟨_, hnew.step hlegal hstep, rfl, fun h => ?_⟩
  obtain ⟨j, hj, -⟩ := h (hserial ▸ Nat.one_ne_zero)
  rw [List.length_eq_zero_iff] at hlen
  exact absurd (hlen.symm.trans hj) (by simp)

end Livesources

end ChilopodCaster
