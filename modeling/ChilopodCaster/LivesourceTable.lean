import ChilopodCaster.Hash
import ChilopodCaster.Json
import ChilopodCaster.Livesource

/-!
# The tables of livesources of a node

A node of a cluster has a table of its own livesources, and a copy of the table of each other
node. `livesource.c` numbers the changes of the first one and announces them to the other nodes as
JSON messages: a difference for each change, or the full table. The other nodes apply them to
their copies.

A livesource is a structure that the table points to; pointers are indices in a list of all the
livesources ever made. Each operation runs under a lock and is a function on the tables. A failed
assertion ends the program, as does a null pointer that is dereferenced: the operation is then
`none`.

The serial of a table is the number of its changes. Messages and copies carry it in 64 bits.

## Main definitions

* `Livesources` — `struct livesources`
* `Livesources.connected`, `Livesources.findOnDemand`, `Livesources.setState`, `Livesources.del` —
  the changes of the local table, with the messages they queue
* `Livesources.updateExecute` — a message received
-/

namespace ChilopodCaster

/-! ### Texts -/

/-- `livesource_states`. -/
def LivesourceState.text : LivesourceState → CString
  | init => cstr "INIT"
  | fetchPending => cstr "FETCH_PENDING"
  | running => cstr "RUNNING"

/-- `livesource_types`. -/
def LivesourceType.text : LivesourceType → CString
  | direct => cstr "DIRECT"
  | fetched => cstr "FETCHED"

/-- `enum livesource_update_type`. -/
inductive LivesourceUpdateType
  | none
  | add
  | del
  | status
  deriving DecidableEq, Repr

/-- `livesource_update_types`. -/
def LivesourceUpdateType.text : LivesourceUpdateType → CString
  | none => cstr "none"
  | add => cstr "add"
  | del => cstr "del"
  | status => cstr "update"

/-- `convert_state`; `none` stands for -1. -/
def convertState (state : CString) : Option LivesourceState :=
  [.init, .fetchPending, .running].find? fun s => s.text = state

/-- `convert_type`; `none` stands for -1. -/
def convertType (type : CString) : Option LivesourceType :=
  [.direct, .fetched].find? fun t => t.text = type

theorem convertState_text (state : LivesourceState) : convertState state.text = some state := by
  cases state <;> decide

theorem convertType_text (type : LivesourceType) : convertType type.text = some type := by
  cases type <;> decide

/-! ### Endpoints -/

/-- `struct endpoint`. -/
structure Endpoint where
  host : CString
  port : BitVec 16
  tls : Bool
  deriving DecidableEq, Repr

/-- An element of an array of endpoints; `none` if a field is missing. -/
def endpointFromJson (text : Json → CString) (ji : Json) : Option Endpoint := do
  let host ← (ji.objectGet (cstr "host")).getString text
  if (ji.objectGet (cstr "tls")).isNull || (ji.objectGet (cstr "port")).isNull then none
  return ⟨host, BitVec.ofInt 16 (ji.objectGet (cstr "port")).getInt,
    (ji.objectGet (cstr "tls")).getBoolean⟩

/-- `endpoints_from_json`. The inner option is the pointer returned; json-c refuses to take the
length of a value that is not an array. -/
def endpointsFromJson (text : Json → CString) : Json → Option (Option (List Endpoint))
  | .array l => some (l.mapM (endpointFromJson text))
  | _ => none

/-! ### The tables -/

/-- `struct livesource_remote`; a state or a type that was not understood is `none`. -/
structure LivesourceRemote where
  mountpoint : CString
  state : Option LivesourceState
  type : Option LivesourceType

/-- `struct livesources_remote`. -/
structure LivesourcesRemote where
  hash : HashTable LivesourceRemote
  serial : BitVec 64
  startDate : CString
  hostname : CString
  endpoints : List Endpoint

/-- `struct livesources`, less its lock, with the livesources themselves in `heap`. -/
structure Livesources where
  heap : List Livesource
  /-- local livesources by mountpoint -/
  hash : HashTable ℕ
  /-- remote tables by hostname -/
  remote : HashTable LivesourcesRemote
  /-- the number of changes since the start; see `serial64` -/
  serial : ℕ
  startDate : CString
  hostname : CString

namespace Livesources

/-- `livesource_table_new`, with the date as a text. -/
def new (hostname startDate : CString) : Livesources where
  heap := []
  hash := HashTable.new 509 HashTable.zero_lt_509
  remote := HashTable.new 113 (by decide)
  serial := 0
  startDate := startDate
  hostname := hostname

/-- The serial as the source keeps it, in an `unsigned long long`. -/
def serial64 (this : Livesources) : BitVec 64 := BitVec.ofNat 64 this.serial

theorem toNat_serial64 {this : Livesources} (h : this.serial < 2 ^ 64) :
    this.serial64.toNat = this.serial := by
  rw [serial64, BitVec.toNat_ofNat, Nat.mod_eq_of_lt h]

end Livesources

/-! ### Messages -/

/-- `_livesource_common_json`, as a list of fields. -/
def livesourceCommonJson (mountpoint : CString) (state : LivesourceState) (type : LivesourceType)
    (addStateType : Bool) : List (CString × Json) :=
  (cstr "mountpoint", .string mountpoint) ::
    if addStateType then [(cstr "state", .string state.text), (cstr "type", .string type.text)]
    else []

/-- `livesource_json`. -/
def Livesource.json (this : Livesource) (utype : LivesourceUpdateType) : Json :=
  .object (livesourceCommonJson this.mountpoint this.state this.type (utype ≠ .del) ++
    if utype = .none then
      [(cstr "nsubscribers", Json.int this.nsubs), (cstr "npackets", Json.int this.npackets)]
    else [])

namespace Livesources

/-- `livesource_update_json`. -/
def updateJson (livesources : Livesources) (this : Livesource) (utype : LivesourceUpdateType) :
    Json :=
  .object [(cstr "livesource", this.json utype), (cstr "start_date", .string livesources.startDate),
    (cstr "hostname", .string livesources.hostname),
    (cstr "serial", .int livesources.serial64.toInt), (cstr "type", .string utype.text)]

/-- `_livesource_list_base_json`, as a list of fields. -/
def listBaseJson (this : Livesources) : List (CString × Json) :=
  [(cstr "hostname", .string this.hostname), (cstr "serial", .int this.serial64.toInt),
    (cstr "start_date", .string this.startDate)]

/-- The loop of `livesource_list_local_json`, under the lock. -/
def listJson (this : Livesources) : Json :=
  .object (this.hash.elements.filterMap fun e =>
    this.heap[e.2]?.map fun livesource => (e.1, livesource.json .none))

/-- `livesource_full_update_json`. The base fields are read before the lock is taken, so they may
come from an older state of the table. -/
def fullUpdateJson (base this : Livesources) (endpoints : Json) : Json :=
  .object (base.listBaseJson ++ [(cstr "endpoints", endpoints),
    (cstr "livesources", this.listJson), (cstr "type", .string (cstr "fulltable"))])

/-- `livesource_checkserial_json`. -/
def checkserialJson (this : Livesources) : Json :=
  .object (this.listBaseJson ++ [(cstr "type", Json.string (cstr "checkserial"))])

/-! ### Changes of the local table -/

/-- `livesource_find_remote_endpoint`. -/
def findRemoteEndpoint (this : Livesources) (mountpoint : CString) : Option Endpoint :=
  this.remote.elements.findSome? fun e =>
    match e.2.endpoints, e.2.hash.get mountpoint with
    | endpoint :: _, some rl => if rl.state = some .running then some endpoint else none
    | _, _ => none

/-- The first part of `livesource_find_unlocked`: a livesource that is there and can be used. -/
def findExisting (this : Livesources) (mountpoint : CString) (findOnDemand : Bool) : Option ℕ :=
  (this.hash.get mountpoint).filter fun np =>
    (this.heap[np]?.map Livesource.state).any fun state =>
      state = .running ∨ findOnDemand ∧ state = .fetchPending

/-- Whether `livesource_find_unlocked` makes a new livesource. -/
def CreatesOnDemand (this : Livesources) (st : Bool) (mountpoint : CString)
    (findOnDemand createOnDemand sourcelineOnDemand : Bool) : Prop :=
  this.findExisting mountpoint findOnDemand = none ∧ findOnDemand ∧ createOnDemand ∧ st ∧
    ((this.findRemoteEndpoint mountpoint).isSome ∨ sourcelineOnDemand)

instance (this : Livesources) (st : Bool) (mountpoint : CString)
    (findOnDemand createOnDemand sourcelineOnDemand : Bool) :
    Decidable (this.CreatesOnDemand st mountpoint findOnDemand createOnDemand sourcelineOnDemand) :=
  inferInstanceAs (Decidable (_ ∧ _))

/-- A livesource is made and filed under its name, which must be free. -/
def register (this : Livesources) (np : Livesource) : Option Livesources :=
  (this.hash.add np.mountpoint this.heap.length).map fun hash =>
    { this with heap := this.heap ++ [np], hash := hash }

/-- `livesource_find_unlocked`, with the value `*jp` is left with. -/
def findUnlocked (this : Livesources) (st : Bool) (mountpoint : CString)
    (findOnDemand createOnDemand sourcelineOnDemand : Bool) :
    Option (Option ℕ × Livesources × Option Json) :=
  -- `*jp = NULL`
  let jp : Option Json := none
  if this.CreatesOnDemand st mountpoint findOnDemand createOnDemand sourcelineOnDemand then
    let np := Livesource.new mountpoint .fetched .fetchPending
    (this.register np).map fun this' =>
      -- `if (*jp)`
      let jp := if jp.isSome then some (this'.updateJson np .add) else jp
      (some this.heap.length, { this' with serial := this'.serial + 1 }, jp)
  else some (this.findExisting mountpoint findOnDemand, this, jp)

/-- `livesource_find_on_demand`, with what is handed to `syncer_queue_json`. -/
def findOnDemand (this : Livesources) (st : Bool) (mountpoint : CString)
    (onDemand sourcelineOnDemand : Bool) : Option (Option ℕ × Livesources × List Json) :=
  (this.findUnlocked st mountpoint onDemand onDemand sourcelineOnDemand).map fun r =>
    (r.1, r.2.1, r.2.2.toList)

/-- `livesource_connected`: the value returned, the tables, and what is queued. -/
def connected (this : Livesources) (mountpoint : CString) :
    Option (ℤ × Livesources × List Json) := do
  let r ← this.findUnlocked true mountpoint true false false
  if r.1.isSome then return (0, r.2.1, [])
  else
    let np := Livesource.new mountpoint .direct .running
    let this' ← r.2.1.register np
    return (1, { this' with serial := this'.serial + 1 }, [this'.updateJson np .add])

/-- `livesource_set_state`. -/
def setState (this : Livesources) (id : ℕ) (state : LivesourceState) :
    Option (Livesources × List Json) := do
  let livesource ← this.heap[id]?
  if livesource.state ≠ state then
    let livesource := { livesource with state := state }
    return ({ this with heap := this.heap.set id livesource, serial := this.serial + 1 },
      [this.updateJson livesource .status])
  else return (this, [])

/-- `livesource_del`. -/
def del (this : Livesources) (id : ℕ) : Option (Livesources × List Json) := do
  let livesource ← this.heap[id]?
  let hash ← this.hash.del livesource.mountpoint
  return ({ this with
      hash := hash
      serial := this.serial + 1
      heap := this.heap.set id livesource.livesourceEnd.this },
    [this.updateJson livesource .del])

end Livesources

/-! ### Messages received -/

namespace LivesourcesRemote

/-- The record made from the fields of a livesource; `none` where `convert_state` or
`convert_type` is given a null pointer. -/
def convertLivesource (text : Json → CString) (mountpoint : CString) (ls : Json) :
    Option LivesourceRemote := do
  let lstype ← (ls.objectGet (cstr "type")).getString text
  let lsstate ← (ls.objectGet (cstr "state")).getString text
  return ⟨mountpoint, convertState lsstate, convertType lstype⟩

/-- The second half of `livesource_update_execute_diff`, once the serial is found right: the
status of an error, or the table with the difference applied. -/
def applyDiff (text : Json → CString) (lrlist : LivesourcesRemote) (type mountpoint : CString)
    (ls : Json) : Option (Except ℕ LivesourcesRemote) :=
  let lr := lrlist.hash.get mountpoint
  if type = cstr "add" then
    if lr.isSome then some (.error 404)
    else do
      let lr ← convertLivesource text mountpoint ls
      let hash ← lrlist.hash.add mountpoint lr
      return .ok { lrlist with hash := hash, serial := lrlist.serial + 1 }
  else if type = cstr "del" then
    match lrlist.hash.del mountpoint with
    | none => some (.error 503)
    | some hash => some (.ok { lrlist with hash := hash, serial := lrlist.serial + 1 })
  else if type = cstr "update" then
    if lr.isNone then some (.error 503)
    else do
      let lr ← convertLivesource text mountpoint ls
      return .ok { lrlist with
        hash := lrlist.hash.modify mountpoint fun _ => lr
        serial := lrlist.serial + 1 }
  else some (.error 503)

/-- The loop of `livesource_process_fulltable`. A name that is there twice fails an assertion. -/
def addLivesource (text : Json → CString) (hash : HashTable LivesourceRemote)
    (entry : CString × Json) : Option (HashTable LivesourceRemote) := do
  let lr ← convertLivesource text entry.1 entry.2
  hash.add entry.1 lr

/-- `livesource_process_fulltable`. The inner option is the pointer returned. -/
def processFulltable (text : Json → CString) (j : Json) (hostname : CString) :
    Option (Option LivesourcesRemote) :=
  let lslist := j.objectGet (cstr "livesources")
  let jserial := j.objectGet (cstr "serial")
  let jendpoints := j.objectGet (cstr "endpoints")
  match (j.objectGet (cstr "start_date")).getString text with
  | none => some none
  | some startDate =>
    if lslist.isNull || jserial.isNull || jendpoints.isNull then some none
    else match endpointsFromJson text jendpoints with
      | none => none
      | some none => some none
      | some (some endpoints) => do
        let fields ← lslist.iterFields
        let hash ← fields.foldlM (addLivesource text) (HashTable.new 509 HashTable.zero_lt_509)
        return some ⟨hash, jserial.getUint64, startDate, hostname, endpoints⟩

end LivesourcesRemote

namespace Livesources

/-- `livesources_remote_replace`. -/
def remoteReplace (this : Livesources) (hostname : CString) (newRemote : Option LivesourcesRemote) :
    Livesources :=
  let remote := (this.remote.del hostname).getD this.remote
  match newRemote with
  | none => { this with remote := remote }
  | some newRemote => { this with remote := (remote.add hostname newRemote).getD remote }

/-- `livesource_update_execute_diff`: the status and the tables. -/
def updateExecuteDiff (text : Json → CString) (this : Livesources) (j : Json) (hostname : CString) :
    Option (ℕ × Livesources) :=
  let jserial := j.objectGet (cstr "serial")
  let jstartDate := j.objectGet (cstr "start_date")
  match (j.objectGet (cstr "type")).getString text, jstartDate.getString text with
  | some type, some startDate =>
    if jserial.isNull then some (503, this)
    else match this.remote.get hostname with
      | none => some (404, this)
      | some lrlist =>
        if startDate ≠ lrlist.startDate then some (404, this)
        else if jserial.getUint64 ≠ lrlist.serial then some (404, this)
        else if type = cstr "checkserial" then some (200, this)
        else
          let ls := j.objectGet (cstr "livesource")
          if ls.isNull then some (404, this)
          else do
            -- a null mountpoint is dereferenced
            let mountpoint ← (ls.objectGet (cstr "mountpoint")).getString text
            match ← lrlist.applyDiff text type mountpoint ls with
            | .error status => return (status, this)
            | .ok lrlist =>
              return (200, { this with remote := this.remote.modify hostname fun _ => lrlist })
  | _, _ => some (503, this)

/-- `livesource_update_execute`. -/
def updateExecute (text : Json → CString) (this : Livesources) (j : Json) :
    Option (ℕ × Livesources) :=
  match (j.objectGet (cstr "type")).getString text,
      (j.objectGet (cstr "hostname")).getString text with
  | some type, some hostname =>
    if type = cstr "fulltable" then
      (LivesourcesRemote.processFulltable text j hostname).map fun
        | none => (503, this)
        | some remote => (200, this.remoteReplace hostname (some remote))
    else this.updateExecuteDiff text j hostname
  | _, _ => some (503, this)

end Livesources

end ChilopodCaster
