import ChilopodCaster.Lib.Replica
import ChilopodCaster.LivesourceAnnounce

/-!
# Agreement on the tables of livesources

A node sends the changes of its livesource table to another one, over connections that may lose,
delay, repeat and reorder messages, and that may break. It may also send the full table; the
serial of that message is read before the table is locked, so the table listed may be newer. When
it restarts it has a new start date.

Each change sets the value of its mountpoint, whatever it was. So a copy that bears some serial
may be wrong only on mountpoints that change after that serial, and the changes put it right one
by one: the copy follows the history of the table (`Replica.Follows`). When the copy has the
serial of the table, there is no change left and they agree.

## Main definitions

* `LivesourceSync.Net`, `LivesourceSync.Step`, `LivesourceSync.Reachable` — the two nodes, the
  messages, and what may happen

## Main results

* `LivesourceSync.agreement` — a copy with the date and the serial of the table is the table
-/

namespace ChilopodCaster

open Replica

/-! ### Messages received -/

namespace Livesources

variable {text : Json → CString} {this r r' : Livesources} {status : ℕ}

theorem get_remoteReplace (this : Livesources) (hostname : CString)
    (newRemote : Option LivesourcesRemote) (host : CString) :
    (this.remoteReplace hostname newRemote).remote.get host =
      if host = hostname then newRemote else this.remote.get host := by
  have hremote (host : CString) : ((this.remote.del hostname).getD this.remote).get host =
      if host = hostname then none else this.remote.get host := by
    cases hdel : this.remote.del hostname with
    | some remote => exact HashTable.get_del hdel host
    | none =>
      rw [Option.getD_none]
      split
      · next heq =>
        cases hget : this.remote.get host with
        | none => rfl
        | some lrlist =>
          obtain ⟨remote, hsome⟩ := HashTable.exists_del (heq ▸ hget)
          rw [hdel] at hsome
          contradiction
      · rfl
  cases newRemote with
  | none => exact hremote host
  | some lrlist =>
    obtain ⟨remote, hadd⟩ := HashTable.exists_add (by rw [hremote, if_pos rfl]) lrlist
    rw [remoteReplace]
    dsimp only
    rw [hadd, Option.getD_some, HashTable.get_add hadd, hremote]
    split <;> rfl

theorem applyDiff_startDate {lrlist lrlist' : LivesourcesRemote} {type mountpoint : CString}
    {ls : Json} (h : lrlist.applyDiff text type mountpoint ls = some (.ok lrlist')) :
    lrlist'.startDate = lrlist.startDate := by
  rw [LivesourcesRemote.applyDiff] at h
  split_ifs at h
  · simp at h
  · obtain ⟨lr, -, h⟩ := Option.bind_eq_some_iff.mp h
    obtain ⟨hash, -, h⟩ := Option.bind_eq_some_iff.mp h
    obtain rfl := Except.ok.inj (Option.some.inj h)
    rfl
  · split at h
    · simp at h
    · obtain rfl := Except.ok.inj (Option.some.inj h)
      rfl
  · simp at h
  · obtain ⟨lr, -, h⟩ := Option.bind_eq_some_iff.mp h
    obtain rfl := Except.ok.inj (Option.some.inj h)
    rfl
  · simp at h

/-- A difference leaves the copies alone, or changes the one with its date; a check of the serial
leaves them alone. -/
theorem updateExecuteDiff_cases {j : Json} {hostname : CString}
    (h : r.updateExecuteDiff text j hostname = some (status, r')) :
    r' = r ∨ ∃ lrlist lrlist' : LivesourcesRemote, r.remote.get hostname = some lrlist ∧
      (j.objectGet (cstr "type")).getString text ≠ some (cstr "checkserial") ∧
      (j.objectGet (cstr "start_date")).getString text = some lrlist'.startDate ∧
      r' = { r with remote := r.remote.modify hostname fun _ => lrlist' } := by
  rw [updateExecuteDiff] at h
  dsimp only at h
  split at h
  · next type startDate htype hdate =>
    split at h
    · exact .inl (Prod.mk.inj (Option.some.inj h)).2.symm
    · split at h
      · exact .inl (Prod.mk.inj (Option.some.inj h)).2.symm
      · next lrlist hget =>
        split_ifs at h with hd _ hcheck
        all_goals try exact .inl (Prod.mk.inj (Option.some.inj h)).2.symm
        obtain ⟨mountpoint, -, h⟩ := Option.bind_eq_some_iff.mp h
        obtain ⟨res, hres, h⟩ := Option.bind_eq_some_iff.mp h
        cases res with
        | error status => exact .inl (Prod.mk.inj (Option.some.inj h)).2.symm
        | ok lrlist' =>
          refine .inr ⟨lrlist, lrlist', hget, ?_, ?_, (Prod.mk.inj (Option.some.inj h)).2.symm⟩
          · rw [htype]
            exact fun heq => hcheck (Option.some.inj heq)
          · rw [hdate, applyDiff_startDate hres, not_not.mp hd]
  · exact .inl (Prod.mk.inj (Option.some.inj h)).2.symm

/-- The copy made from a full table. -/
theorem processFulltable_eq_some {j : Json} {hostname : CString} {lrlist : LivesourcesRemote}
    (h : LivesourcesRemote.processFulltable text j hostname = some (some lrlist)) :
    (j.objectGet (cstr "start_date")).getString text = some lrlist.startDate ∧
      lrlist.serial = (j.objectGet (cstr "serial")).getUint64 ∧
      ∃ fields, (j.objectGet (cstr "livesources")).iterFields = some fields ∧
        fields.foldlM (LivesourcesRemote.addLivesource text)
          (HashTable.new 509 HashTable.zero_lt_509) = some lrlist.hash := by
  rw [LivesourcesRemote.processFulltable] at h
  split at h
  · simp at h
  · next startDate hdate =>
    split at h
    · simp at h
    · split at h
      · contradiction
      · simp at h
      · obtain ⟨fields, hfields, h⟩ := Option.bind_eq_some_iff.mp h
        obtain ⟨hash, hfold, h⟩ := Option.bind_eq_some_iff.mp h
        obtain rfl := Option.some.inj (Option.some.inj h)
        exact ⟨hdate, rfl, fields, hfields, hfold⟩

/-- What a message can do: nothing, put a full table in place, or apply a difference. -/
theorem updateExecute_cases {j : Json} (h : r.updateExecute text j = some (status, r')) :
    r' = r ∨ ∃ hostname, (j.objectGet (cstr "hostname")).getString text = some hostname ∧
      (((j.objectGet (cstr "type")).getString text = some (cstr "fulltable") ∧
        ∃ lrlist, LivesourcesRemote.processFulltable text j hostname = some (some lrlist) ∧
          r' = r.remoteReplace hostname (some lrlist)) ∨
      ((j.objectGet (cstr "type")).getString text ≠ some (cstr "fulltable") ∧
        r.updateExecuteDiff text j hostname = some (status, r'))) := by
  rw [updateExecute] at h
  split at h
  · next type hostname htype hhost =>
    split at h
    · next hfull =>
      obtain ⟨remote, hprocess, heq⟩ := Option.map_eq_some_iff.mp h
      cases remote with
      | none => exact .inl (Prod.mk.inj heq).2.symm
      | some lrlist =>
        exact .inr ⟨hostname, hhost, .inl ⟨by rw [htype, hfull], lrlist, hprocess,
          (Prod.mk.inj heq).2.symm⟩⟩
    · next hdiff =>
      refine .inr ⟨hostname, hhost, .inr ⟨?_, h⟩⟩
      rw [htype]
      exact fun heq => hdiff (Option.some.inj heq)
  · exact .inl (Prod.mk.inj (Option.some.inj h)).2.symm

/-- Any message leaves the copy of a host alone, or bears its name and the date of the new copy. -/
theorem updateExecute_frame {j : Json} (h : r.updateExecute text j = some (status, r'))
    (host : CString) :
    r'.remote.get host = r.remote.get host ∨
      ((j.objectGet (cstr "hostname")).getString text = some host ∧
        ∃ lrlist, r'.remote.get host = some lrlist ∧
          (j.objectGet (cstr "start_date")).getString text = some lrlist.startDate) := by
  rcases updateExecute_cases h with
    rfl | ⟨hostname, hhost, ⟨-, lrlist, hfull, rfl⟩ | ⟨-, hdiff⟩⟩
  · exact .inl rfl
  · rw [get_remoteReplace]
    split
    · next hh => exact .inr ⟨hh ▸ hhost, lrlist, rfl, (processFulltable_eq_some hfull).1⟩
    · exact .inl rfl
  · rcases updateExecuteDiff_cases hdiff with rfl | ⟨lrlist, lrlist', hget, -, hdate, rfl⟩
    · exact .inl rfl
    · dsimp only
      rw [HashTable.get_modify]
      split
      · next hh => exact .inr ⟨hh ▸ hhost, lrlist', by rw [hh, hget]; rfl, hdate⟩
      · exact .inl rfl

/-! ### The full table -/

/-- The livesources that the table lists. -/
def entries (this : Livesources) : List (CString × Livesource) :=
  this.hash.elements.filterMap fun e => this.heap[e.2]?.map fun livesource => (e.1, livesource)

theorem listJson_eq (this : Livesources) :
    this.listJson = .object (this.entries.map fun e => (e.1, e.2.json .none)) := by
  rw [listJson, entries, List.map_filterMap]
  congr 2
  funext e
  rw [Option.map_map]
  rfl

theorem find?_entries (hs : Sound this) (m : CString) :
    ((this.entries.find? (·.1 = m)).map fun e => e.2.view) = this.localMap m := by
  rw [localMap, ← HashTable.find?_elements, entries]
  have hheap : ∀ e ∈ this.hash.elements, ∃ l, this.heap[e.2]? = some l := fun e he => by
    obtain ⟨l, hl, -⟩ := hs.filed e.1 e.2 (this.hash.mem_elements.mp he)
    exact ⟨l, hl⟩
  generalize this.hash.elements = es at hheap
  induction es with
  | nil => rfl
  | cons e es ih =>
    obtain ⟨l, hl⟩ := hheap e List.mem_cons_self
    simp only [List.filterMap_cons, hl, Option.map_some]
    by_cases hm : e.1 = m
    · rw [List.find?_cons_of_pos (by simpa using hm), List.find?_cons_of_pos (by simpa using hm)]
      simp [hl]
    · rw [List.find?_cons_of_neg (by simpa using hm), List.find?_cons_of_neg (by simpa using hm)]
      exact ih fun e' he' => hheap e' (List.mem_cons_of_mem e he')

/-- The loop of `livesource_process_fulltable`: the records are those of the list. -/
theorem foldlM_addLivesource (es : List (CString × Livesource))
    {hash hash' : HashTable LivesourceRemote}
    (h : (es.map fun e => (e.1, e.2.json .none)).foldlM (LivesourcesRemote.addLivesource text)
      hash = some hash') (m : CString) :
    ((hash'.get m).map fun lr => (lr.state, lr.type)) =
      ((hash.get m).map fun lr => (lr.state, lr.type)).or
        ((es.find? (·.1 = m)).map fun e => e.2.view) := by
  induction es generalizing hash with
  | nil =>
    obtain rfl := Option.some.inj h
    exact (Option.or_none).symm
  | cons e es ih =>
    rw [List.map_cons, List.foldlM_cons] at h
    obtain ⟨hash₁, hadd, h⟩ := Option.bind_eq_some_iff.mp h
    rw [LivesourcesRemote.addLivesource,
      LivesourcesRemote.convertLivesource_json text e.1 (by decide)] at hadd
    rw [ih h, HashTable.get_add hadd]
    by_cases hm : m = e.1
    · rw [if_pos hm, List.find?_cons_of_pos (by simpa using hm.symm), hm,
        HashTable.get_eq_none_of_add hadd]
      rfl
    · rw [if_neg hm, List.find?_cons_of_neg (by simpa using Ne.symm hm)]

/-- **The full table received**: the copy has the serial that was read first, and what was listed.
-/
theorem updateExecute_fullUpdateJson {base : Livesources} {endpoints : Json} (hb : Sound base)
    (hs : Sound this)
    (h : r.updateExecute text (base.fullUpdateJson this endpoints) = some (status, r')) :
    r' = r ∨ ∃ lrlist : LivesourcesRemote, lrlist.startDate = base.startDate ∧
      lrlist.serial = base.serial64 ∧ lrlist.map = this.localMap ∧
      r' = r.remoteReplace base.hostname (some lrlist) := by
  have htype : (base.fullUpdateJson this endpoints).objectGet (cstr "type") =
      .string (cstr "fulltable") := rfl
  have hhost : (base.fullUpdateJson this endpoints).objectGet (cstr "hostname") =
      .string base.hostname := rfl
  have hdate : (base.fullUpdateJson this endpoints).objectGet (cstr "start_date") =
      .string base.startDate := rfl
  have hserial : (base.fullUpdateJson this endpoints).objectGet (cstr "serial") =
      .int base.serial64.toInt := rfl
  have hlist : (base.fullUpdateJson this endpoints).objectGet (cstr "livesources") =
      this.listJson := rfl
  rcases updateExecute_cases h with
    rfl | ⟨hostname, hname, ⟨-, lrlist, hfull, rfl⟩ | ⟨hne, -⟩⟩
  · exact .inl rfl
  · rw [hhost, Json.getString_string text hb.hostname] at hname
    obtain rfl := Option.some.inj hname
    obtain ⟨hstart, hcount, fields, hfields, hfold⟩ := processFulltable_eq_some hfull
    rw [hdate, Json.getString_string text hb.startDate] at hstart
    rw [hserial, Json.getUint64_int] at hcount
    rw [hlist, listJson_eq] at hfields
    obtain rfl := Option.some.inj hfields
    refine .inr ⟨lrlist, (Option.some.inj hstart).symm, hcount, ?_, rfl⟩
    funext m
    rw [LivesourcesRemote.map, foldlM_addLivesource _ hfold, HashTable.get_new, Option.map_none,
      Option.none_or, find?_entries hs]
  · exact absurd (by rw [htype, Json.getString_string text (by decide)]) hne

theorem updateExecute_updateJson {base : Livesources} {l : Livesource}
    {utype : LivesourceUpdateType} (hb : Sound base) :
    r.updateExecute text (base.updateJson l utype) =
      r.updateExecuteDiff text (base.updateJson l utype) base.hostname := by
  have htype : (base.updateJson l utype).objectGet (cstr "type") = .string utype.text := rfl
  have hhost : (base.updateJson l utype).objectGet (cstr "hostname") = .string base.hostname := rfl
  have htext : 0 ∉ utype.text := by cases utype <;> decide
  have hne : utype.text ≠ cstr "fulltable" := by cases utype <;> decide
  simp only [updateExecute, htype, hhost, Json.getString_string text htext,
    Json.getString_string text hb.hostname, if_neg hne]

theorem updateExecute_checkserialJson {base : Livesources}
    (h : r.updateExecute text base.checkserialJson = some (status, r')) : r' = r := by
  have htype : base.checkserialJson.objectGet (cstr "type") = .string (cstr "checkserial") := rfl
  have hcheck : (base.checkserialJson.objectGet (cstr "type")).getString text =
      some (cstr "checkserial") := by
    rw [htype, Json.getString_string text (by decide)]
  rcases updateExecute_cases h with rfl | ⟨hostname, -, ⟨hfull, -⟩ | ⟨-, hdiff⟩⟩
  · rfl
  · rw [hcheck] at hfull
    exact absurd (Option.some.inj hfull) (by decide)
  · rcases updateExecuteDiff_cases hdiff with rfl | ⟨-, -, -, hne, -⟩
    · rfl
    · exact absurd hcheck hne

end Livesources

namespace LivesourceSync

open Livesources

/-! ### Two nodes and the messages between them -/

/-- A node that sends its table to another one. -/
structure Net where
  sender : Livesources
  receiver : Livesources
  /-- every message sent so far: a message may be lost, late, or received twice -/
  sent : List Json
  /-- the full tables being made: the state from which the serial was read -/
  pending : List Livesources
  /-- the start dates so far -/
  dates : List CString

/-- What may happen. -/
inductive Step (text : Json → CString) (net : Net) : Net → Prop
  /-- the sender changes its table -/
  | change {op : Op} {sender : Livesources} {queued : List Json} (hlegal : op.Legal net.sender)
      (hstep : net.sender.step op = some (sender, queued)) :
      Step text net { net with sender := sender, sent := queued ++ net.sent }
  /-- something else changes in the sender -/
  | senderOther {sender : Livesources} (hsame : net.sender.SameTable sender) :
      Step text net { net with sender := sender }
  /-- a full table is started: the serial is read, without a lock -/
  | readSerial : Step text net { net with pending := net.sender :: net.pending }
  /-- a full table is listed and sent -/
  | fullTable {base : Livesources} {before after : List Livesources} {endpoints : Json}
      (hpending : net.pending = before ++ base :: after) :
      Step text net { net with
        pending := before ++ after
        sent := base.fullUpdateJson net.sender endpoints :: net.sent }
  /-- a check of the serial is sent -/
  | checkserial : Step text net { net with sent := net.sender.checkserialJson :: net.sent }
  /-- the sender restarts -/
  | restart {date : CString} (hfresh : date ∉ net.dates) (hdate : 0 ∉ date) :
      Step text net { net with
        sender := new net.sender.hostname date
        pending := []
        dates := date :: net.dates }
  /-- the receiver gets a message of the sender -/
  | deliver {j : Json} {status : ℕ} {receiver : Livesources} (hj : j ∈ net.sent)
      (hexec : net.receiver.updateExecute text j = some (status, receiver)) :
      Step text net { net with receiver := receiver }
  /-- the receiver gets a message that is not from the sender -/
  | receiveOther {j : Json} {status : ℕ} {receiver : Livesources}
      (hj : (j.objectGet (cstr "hostname")).getString text ≠ some net.sender.hostname)
      (hexec : net.receiver.updateExecute text j = some (status, receiver)) :
      Step text net { net with receiver := receiver }
  /-- a connection to the receiver breaks -/
  | disconnect (hostname : CString) :
      Step text net { net with receiver := net.receiver.remoteReplace hostname none }
  /-- something else changes in the receiver -/
  | receiverOther {receiver : Livesources} (hremote : receiver.remote = net.receiver.remote) :
      Step text net { net with receiver := receiver }

/-- The states reached from the start of the sender, when the receiver has no copy of its table. -/
inductive Reachable (text : Json → CString) : Net → Prop
  | start {hostname date : CString} {receiver : Livesources} (hh : 0 ∉ hostname) (hd : 0 ∉ date)
      (hr : receiver.remote.get hostname = none) :
      Reachable text ⟨new hostname date, receiver, [], [], [date]⟩
  | step {net net' : Net} (h : Reachable text net) (hstep : Step text net net') :
      Reachable text net'

/-! ### What is in flight -/

/-- The changes of a table, each with the value it gives to its mountpoint. -/
abbrev History := List (CString × Option LivesourceView)

/-- A message of the sender since its last start, against the history of its table. -/
inductive Message (hostname date : CString) (h : History) : Json → Prop
  | diff {base : Livesources} {l : Livesource} {utype : LivesourceUpdateType} (hs : Sound base)
      (hhost : base.hostname = hostname) (hdate : base.startDate = date) (hname : 0 ∉ l.mountpoint)
      (hkind : utype ≠ .none)
      (hchange : h[base.serial]? = some (l.mountpoint, l.announced utype)) :
      Message hostname date h (base.updateJson l utype)
  | full {base this : Livesources} {endpoints : Json} (hb : Sound base) (hs : Sound this)
      (hhost : base.hostname = hostname) (hdate : base.startDate = date)
      (hfollows : Follows h base.serial this.localMap) :
      Message hostname date h (base.fullUpdateJson this endpoints)
  | checkserial {base : Livesources} (hs : Sound base) (hdate : base.startDate = date) :
      Message hostname date h base.checkserialJson

variable {text : Json → CString} {hostname date : CString} {h : History} {j : Json}

theorem Message.append (hm : Message hostname date h j) (c : CString × Option LivesourceView) :
    Message hostname date (h ++ [c]) j := by
  cases hm with
  | diff hs hhost hdate hname hkind hchange =>
    refine .diff hs hhost hdate hname hkind ?_
    rw [List.getElem?_append_left (List.getElem?_eq_some_iff.mp hchange).1, hchange]
  | full hb hs hhost hdate hfollows => exact .full hb hs hhost hdate (hfollows.append c)
  | checkserial hs hdate => exact .checkserial hs hdate

theorem Message.startDate (hm : Message hostname date h j) :
    (j.objectGet (cstr "start_date")).getString text = some date := by
  cases hm with
  | diff hs _ hdate => exact hdate ▸ Json.getString_string text hs.startDate
  | full hb _ _ hdate => exact hdate ▸ Json.getString_string text hb.startDate
  | checkserial hs hdate => exact hdate ▸ Json.getString_string text hs.startDate

/-- A copy that follows the history of the table, as long as the serial counts its changes. -/
def CopyFollows (hostname date : CString) (h : History) (receiver : Livesources) : Prop :=
  h.length < 2 ^ 64 → ∀ lrlist, receiver.remote.get hostname = some lrlist →
    lrlist.startDate = date → Follows h lrlist.serial.toNat lrlist.map

/-- A difference is applied in its turn, or not at all. -/
theorem copyFollows_diff {base : Livesources} {l : Livesource} {utype : LivesourceUpdateType}
    (hs : Sound base) (hdate : base.startDate = date) (hname : 0 ∉ l.mountpoint)
    (hkind : utype ≠ .none) (hchange : h[base.serial]? = some (l.mountpoint, l.announced utype))
    {r r' : Livesources} {status : ℕ} (hcopy : CopyFollows base.hostname date h r)
    (hexec : r.updateExecuteDiff text (base.updateJson l utype) base.hostname = some (status, r')) :
    CopyFollows base.hostname date h r' := by
  cases hget : r.remote.get base.hostname with
  | none =>
    rcases updateExecuteDiff_cases hexec with rfl | ⟨lrlist, _, hsome, -⟩
    · exact hcopy
    · rw [hget] at hsome
      contradiction
  | some lrlist =>
    rw [updateExecuteDiff_updateJson text hs hname hget] at hexec
    split at hexec
    · obtain rfl := (Prod.mk.inj (Option.some.inj hexec)).2
      exact hcopy
    · next hsame =>
      obtain ⟨hdate', hserial⟩ :
          base.startDate = lrlist.startDate ∧ base.serial64 = lrlist.serial := by
        rwa [not_or, not_not, not_not] at hsame
      by_cases hok : utype = .add ↔ lrlist.map l.mountpoint = none
      · obtain ⟨lrlist', hdiff, -, hserial', hmap'⟩ :=
          LivesourcesRemote.applyDiff_json text hkind hok
        rw [hdiff] at hexec
        obtain rfl := (Prod.mk.inj (Option.some.inj hexec)).2
        intro hlength lrlist'' hget'' _
        dsimp only at hget''
        rw [HashTable.get_modify, if_pos rfl, hget] at hget''
        obtain rfl := Option.some.inj hget''
        -- the difference is about a change of the history, so the serial does not come to its end
        have hlt := (List.getElem?_eq_some_iff.mp hchange).1
        have hold : lrlist.serial.toNat = base.serial := by
          rw [← hserial, toNat_serial64 (hlt.trans hlength)]
        have hnew : lrlist'.serial.toNat = lrlist.serial.toNat + 1 := by
          rw [hserial']
          exact BitVec.toNat_add_of_lt (by rw [hold]; exact lt_of_le_of_lt hlt hlength)
        rw [hnew, hmap']
        exact (hcopy hlength lrlist hget (hdate'.symm.trans hdate)).step (hold ▸ hchange)
      · obtain ⟨status, hdiff⟩ := LivesourcesRemote.applyDiff_json_refused text hkind hok
        rw [hdiff] at hexec
        obtain rfl := (Prod.mk.inj (Option.some.inj hexec)).2
        exact hcopy

/-- **A message keeps the copy on the history.** -/
theorem Message.copyFollows (hm : Message hostname date h j) {r r' : Livesources} {status : ℕ}
    (hcopy : CopyFollows hostname date h r)
    (hexec : r.updateExecute text j = some (status, r')) : CopyFollows hostname date h r' := by
  cases hm with
  | @diff base l utype hs hhost hdate hname hkind hchange =>
    subst hhost
    rw [updateExecute_updateJson hs] at hexec
    exact copyFollows_diff hs hdate hname hkind hchange hcopy hexec
  | @full base this endpoints hb hs hhost hdate hfollows =>
    subst hhost
    rcases updateExecute_fullUpdateJson hb hs hexec with rfl | ⟨lrlist, -, hserial, hmap, rfl⟩
    · exact hcopy
    · intro hlength lrlist' hget' _
      rw [get_remoteReplace, if_pos rfl] at hget'
      obtain rfl := Option.some.inj hget'
      rw [hserial, hmap, toNat_serial64 (lt_of_le_of_lt hfollows.1 hlength)]
      exact hfollows
  | checkserial hs hdate =>
    obtain rfl := updateExecute_checkserialJson hexec
    exact hcopy

/-! ### The invariant -/

/-- What holds of every reachable state, for the history of the table since the sender started. -/
structure Inv (net : Net) (h : History) : Prop where
  sound : Sound net.sender
  serial : net.sender.serial = h.length
  map : net.sender.localMap = replay h
  current : net.sender.startDate ∈ net.dates
  pending : ∀ base ∈ net.pending, Sound base ∧ base.hostname = net.sender.hostname ∧
    base.startDate = net.sender.startDate ∧ base.serial ≤ h.length
  sent (text : Json → CString) : ∀ j ∈ net.sent, ∃ date ∈ net.dates,
    (j.objectGet (cstr "start_date")).getString text = some date ∧
      (date = net.sender.startDate → Message net.sender.hostname date h j)
  dated : ∀ lrlist, net.receiver.remote.get net.sender.hostname = some lrlist →
    lrlist.startDate ∈ net.dates
  copy : CopyFollows net.sender.hostname net.sender.startDate h net.receiver

variable {net net' : Net}

theorem inv_start {receiver : Livesources} (hh : 0 ∉ hostname) (hd : 0 ∉ date)
    (hr : receiver.remote.get hostname = none) :
    Inv ⟨new hostname date, receiver, [], [], [date]⟩ [] where
  sound := sound_new hd hh
  serial := rfl
  map := by
    funext m
    rw [localMap, new, HashTable.get_new]
    rfl
  current := List.mem_cons_self
  pending := by simp
  sent := by simp
  dated lrlist hget := by
    rw [new, hr] at hget
    contradiction
  copy _ lrlist hget := by
    rw [new, hr] at hget
    contradiction

/-- A new message of the sender. -/
theorem Inv.send (hinv : Inv net h) (hm : Message net.sender.hostname net.sender.startDate h j) :
    Inv { net with sent := j :: net.sent } h := by
  refine { hinv with sent := fun text j' hj' => ?_ }
  rcases List.mem_cons.mp hj' with rfl | hj'
  · exact ⟨_, hinv.current, hm.startDate, fun _ => hm⟩
  · exact hinv.sent text j' hj'

/-- The table changes. -/
theorem Inv.changes (hinv : Inv net h) {l : Livesource} {utype : LivesourceUpdateType}
    {sender : Livesources} (hc : net.sender.Changes l utype sender) :
    Inv { net with sender := sender } (h ++ [(l.mountpoint, l.announced utype)]) where
  sound := hc.sound
  serial := by rw [hc.serial, hinv.serial, List.length_append]; rfl
  map := by rw [hc.map, hinv.map, replay_concat]
  current := hc.startDate ▸ hinv.current
  pending base hbase := by
    obtain ⟨hs, hhost, hdate, hle⟩ := hinv.pending base hbase
    refine ⟨hs, hhost.trans hc.hostname.symm, hdate.trans hc.startDate.symm, ?_⟩
    rw [List.length_append]
    omega
  sent text j hj := by
    obtain ⟨date, hdate, hstart, hm⟩ := hinv.sent text j hj
    refine ⟨date, hdate, hstart, fun heq => ?_⟩
    rw [hc.hostname]
    exact (hm (heq.trans hc.startDate)).append _
  dated lrlist hget := hinv.dated lrlist (hc.hostname ▸ hget)
  copy hlength lrlist hget hdate := by
    have hshorter : h.length < 2 ^ 64 := by
      rw [List.length_append] at hlength
      omega
    exact (hinv.copy hshorter lrlist (hc.hostname ▸ hget) (hdate.trans hc.startDate)).append _

/-- The receiver changes, and its copy keeps to the history. -/
theorem Inv.receive (hinv : Inv net h) {receiver : Livesources}
    (hdated : ∀ lrlist, receiver.remote.get net.sender.hostname = some lrlist →
      lrlist.startDate ∈ net.dates)
    (hcopy : CopyFollows net.sender.hostname net.sender.startDate h receiver) :
    Inv { net with receiver := receiver } h :=
  { hinv with dated := hdated, copy := hcopy }

theorem Inv.receive_same (hinv : Inv net h) {receiver : Livesources}
    (hsame : receiver.remote.get net.sender.hostname =
      net.receiver.remote.get net.sender.hostname) :
    Inv { net with receiver := receiver } h :=
  hinv.receive (fun lrlist hget => hinv.dated lrlist (hsame ▸ hget))
    fun hlength lrlist hget => hinv.copy hlength lrlist (hsame ▸ hget)

theorem Inv.sameTable (hinv : Inv net h) {sender : Livesources}
    (hsame : net.sender.SameTable sender) : Inv { net with sender := sender } h := by
  have hmap := hsame.localMap
  have hsound := hinv.sound.sameTable hsame
  obtain ⟨-, hserial, hdate, hhost, -⟩ := hsame
  refine ⟨hsound, hserial.trans hinv.serial, hmap.trans hinv.map, ?_, ?_, ?_, ?_, ?_⟩
  all_goals simp only [hdate, hhost]
  · exact hinv.current
  · exact hinv.pending
  · exact hinv.sent
  · exact hinv.dated
  · exact hinv.copy

/-- After a restart nothing in flight has the new date. -/
theorem Inv.restart (hinv : Inv net h) (hfresh : date ∉ net.dates) (hdate : 0 ∉ date) :
    Inv { net with
      sender := new net.sender.hostname date
      pending := []
      dates := date :: net.dates } [] where
  sound := sound_new hdate hinv.sound.hostname
  serial := rfl
  map := by
    funext m
    rw [localMap, new, HashTable.get_new]
    rfl
  current := List.mem_cons_self
  pending := by simp
  sent text j hj := by
    obtain ⟨d, hd, hstart, -⟩ := hinv.sent text j hj
    refine ⟨d, List.mem_cons_of_mem _ hd, hstart, fun heq => absurd hd ?_⟩
    rw [heq]
    exact hfresh
  dated lrlist hget := List.mem_cons_of_mem _ (hinv.dated lrlist hget)
  copy _ lrlist hget heq := by
    refine absurd (hinv.dated lrlist hget) ?_
    rw [heq]
    exact hfresh

/-- A message of the sender is received. -/
theorem Inv.deliver (hinv : Inv net h) {status : ℕ} {receiver : Livesources} (hj : j ∈ net.sent)
    (hexec : net.receiver.updateExecute text j = some (status, receiver)) :
    Inv { net with receiver := receiver } h := by
  obtain ⟨date, hdate, hstart, hm⟩ := hinv.sent text j hj
  have hframe := updateExecute_frame hexec net.sender.hostname
  refine hinv.receive (fun lrlist hget => ?_) ?_
  · rcases hframe with hsame | ⟨-, lrlist', hget', hstart'⟩
    · exact hinv.dated lrlist (hsame ▸ hget)
    · obtain rfl := Option.some.inj (hget.symm.trans hget')
      rw [← Option.some.inj (hstart.symm.trans hstart')]
      exact hdate
  · by_cases hcurrent : date = net.sender.startDate
    · subst hcurrent
      exact (hm rfl).copyFollows hinv.copy hexec
    · -- the message is from before the last restart: the copy it leaves has an old date
      intro hlength lrlist hget hnow
      rcases hframe with hsame | ⟨-, lrlist', hget', hstart'⟩
      · exact hinv.copy hlength lrlist (hsame ▸ hget) hnow
      · obtain rfl := Option.some.inj (hget.symm.trans hget')
        exact absurd ((Option.some.inj (hstart.symm.trans hstart')).trans hnow) hcurrent

/-- **What one step keeps.** -/
theorem Inv.step (hinv : Inv net h) (hstep : Step text net net') : ∃ h', Inv net' h' := by
  cases hstep with
  | change hlegal hstep =>
    rcases step_cases hinv.sound hlegal hstep with ⟨rfl, rfl, -⟩ | ⟨l, hc, rfl, -⟩ |
      ⟨l, utype, hc, rfl, -⟩
    · exact ⟨h, hinv⟩
    · exact ⟨_, hinv.changes hc⟩
    · refine ⟨_, (hinv.changes hc).send (.diff hinv.sound hc.hostname.symm hc.startDate.symm hc.name
        hc.kind ?_)⟩
      rw [hinv.serial]
      exact List.getElem?_concat_length
  | senderOther hsame => exact ⟨h, hinv.sameTable hsame⟩
  | readSerial =>
    refine ⟨h, { hinv with pending := fun base hbase => ?_ }⟩
    rcases List.mem_cons.mp hbase with rfl | hbase
    · exact ⟨hinv.sound, rfl, rfl, hinv.serial.le⟩
    · exact hinv.pending base hbase
  | @fullTable base before after endpoints hpending =>
    obtain ⟨hs, hhost, hdate, hle⟩ := hinv.pending base (by simp [hpending])
    have hfollows : Follows h base.serial net.sender.localMap := by
      rw [hinv.map]
      exact follows_snapshot hle
    have hm : Message net.sender.hostname net.sender.startDate h
        (base.fullUpdateJson net.sender endpoints) := .full hs hinv.sound hhost hdate hfollows
    refine ⟨h, { hinv.send hm with pending := fun base' hbase' => hinv.pending base' ?_ }⟩
    rw [hpending]
    rcases List.mem_append.mp hbase' with hmem | hmem
    · exact List.mem_append_left _ hmem
    · exact List.mem_append_right _ (List.mem_cons_of_mem _ hmem)
  | checkserial => exact ⟨h, hinv.send (.checkserial hinv.sound rfl)⟩
  | restart hfresh hdate => exact ⟨[], hinv.restart hfresh hdate⟩
  | deliver hj hexec => exact ⟨h, hinv.deliver hj hexec⟩
  | receiveOther hj hexec =>
    refine ⟨h, hinv.receive_same ?_⟩
    exact (updateExecute_frame hexec net.sender.hostname).resolve_right fun hother => hj hother.1
  | disconnect hostname =>
    by_cases heq : net.sender.hostname = hostname
    · have hnone :
          (net.receiver.remoteReplace hostname none).remote.get net.sender.hostname = none := by
        rw [get_remoteReplace, if_pos heq]
      refine ⟨h, hinv.receive (fun lrlist hget => ?_) fun _ lrlist hget => ?_⟩
      all_goals rw [hnone] at hget; contradiction
    · exact ⟨h, hinv.receive_same (by rw [get_remoteReplace, if_neg heq])⟩
  | receiverOther hremote => exact ⟨h, hinv.receive_same (by rw [hremote])⟩

theorem Reachable.inv (hr : Reachable text net) : ∃ h, Inv net h := by
  induction hr with
  | start hh hd hr => exact ⟨[], inv_start hh hd hr⟩
  | step _ hstep ih =>
    obtain ⟨h, hinv⟩ := ih
    exact hinv.step hstep

/-- **Agreement.** In every reachable state, if the date and the serial of the receiver's copy are
those of the sender, then the copy is the sender's table. The serial of the sender is the number of
its changes. -/
theorem agreement (hr : Reachable text net) {lrlist : LivesourcesRemote}
    (hget : net.receiver.remote.get net.sender.hostname = some lrlist)
    (hdate : lrlist.startDate = net.sender.startDate)
    (hserial : lrlist.serial.toNat = net.sender.serial) : lrlist.map = net.sender.localMap := by
  obtain ⟨h, hinv⟩ := hr.inv
  rw [hinv.serial] at hserial
  have hfollows := hinv.copy (hserial ▸ lrlist.serial.isLt) lrlist hget hdate
  rw [hserial] at hfollows
  rw [hfollows.eq_replay, hinv.map]

/-- A source connects to a node, which sends its table to another one. -/
theorem agreement_oneSource :
    ∃ (net : Net) (lrlist : LivesourcesRemote), Reachable (fun _ => []) net ∧
      net.receiver.remote.get net.sender.hostname = some lrlist ∧ lrlist.serial = 1 ∧
      lrlist.map = net.sender.localMap := by
  have hsome : ((started.step (.connected (cstr "M"))).bind fun r =>
      ((new (cstr "peer") []).updateExecute (fun _ => [])
        (r.1.fullUpdateJson r.1 (.array []))).bind fun r' =>
          (r'.2.remote.get r.1.hostname).map fun lrlist =>
            (r.1.serial, lrlist.serial, decide (lrlist.startDate = r.1.startDate))) =
      some ((1 : ℕ), (1 : BitVec 64), true) := by
    decide +kernel
  obtain ⟨⟨sender, queued⟩, hconnected, hsome⟩ := Option.bind_eq_some_iff.mp hsome
  obtain ⟨⟨status, receiver⟩, hexec, hsome⟩ := Option.bind_eq_some_iff.mp hsome
  obtain ⟨lrlist, hget, heq⟩ := Option.map_eq_some_iff.mp hsome
  obtain ⟨hserial, heq⟩ := Prod.mk.inj heq
  obtain ⟨hserial', hdate⟩ := Prod.mk.inj heq
  have hstart :
      Reachable (fun _ => []) ⟨started, new (cstr "peer") [], [], [], [started.startDate]⟩ :=
    .start (by decide) (by decide) (HashTable.get_new (by decide) _)
  have hlegal : (Op.connected (cstr "M")).Legal started := by
    rw [Op.Legal]
    decide
  have hread := (hstart.step (.change hlegal hconnected)).step .readSerial
  have hfull := hread.step (@Step.fullTable _ _ sender [] [] (.array []) rfl)
  have hreach := hfull.step (.deliver List.mem_cons_self hexec)
  have hsame : lrlist.serial.toNat = sender.serial :=
    (congrArg BitVec.toNat hserial').trans hserial.symm
  exact ⟨_, lrlist, hreach, hget, hserial',
    agreement hreach hget (of_decide_eq_true hdate) hsame⟩

end LivesourceSync

end ChilopodCaster
