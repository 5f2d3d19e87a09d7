import ChilopodCaster.Auth
import ChilopodCaster.Ip
import ChilopodCaster.Sourcetable

/-!
# Accounts and quotas in files

The accounts of sources, rovers, administrators and mail servers are in text files, one account a
line, with the fields separated by colons. The quotas of addresses are in the blocklist, with the
fields separated by blanks. A file is read as a whole: one line that has not the right number of
fields makes it unreadable.

## Main definitions

* `fileParse` — `file_parse`, on the content of the file
* `authParse`, `roverAuthParse`, `userAuthParse` — the lists of accounts
* `prefixTableRead` — the quotas
-/

namespace ChilopodCaster

/-- The content of each file by its name, or `none` if it cannot be opened. Names are relative to
`config_dir`. -/
abbrev Files := CString → Option (List Byte)

/-- The fields of a line. With `skipempty` the empty ones are left out. -/
def lineFields (seps : List Byte) (skipempty : Bool) (line : CString) : List CString :=
  (line.splitOnP (· ∈ seps)).filter fun token => !skipempty || token ≠ []

/-- `file_parse`. Empty lines and comments are skipped. -/
def fileParse (nfields : ℕ) (seps : List Byte) (skipempty : Bool) (content : List Byte) :
    Option (List (List CString)) :=
  let lines := (Sourcetable.fileLines content).map toCString
  let lines := lines.filter fun line => line ≠ [] ∧ line.head? ≠ some 0x23
  lines.mapM fun line =>
    let pl := lineFields seps skipempty line
    if pl.length = nfields then some pl else none

/-- The fields `pls[n][i]` of a line. -/
def field (pl : List CString) (i : ℕ) : CString := pl.getD i []

/-- `auth_parse`. -/
def authParse (content : List Byte) : Option (List AuthEntry) :=
  (fileParse 3 (cstr ":") false content).map fun pls =>
    pls.map fun pl => ⟨field pl 0, field pl 1, field pl 2⟩

/-- The last field of an account, which enables it. -/
def isEnabled (e : CString) : Bool :=
  !strcasecmp e (cstr "Y") || !strcasecmp e (cstr "yes") || !strcasecmp e (cstr "true") ||
    e = cstr "1"

/-- `rover_auth_parse`. -/
def roverAuthParse (content : List Byte) : Option (List RoverAuthEntry) :=
  (fileParse 3 (cstr ":") false content).map fun pls =>
    pls.map fun pl => ⟨field pl 0, field pl 1, isEnabled (field pl 2)⟩

/-- `user_auth_parse`. -/
def userAuthParse (content : List Byte) : Option (List UserAuthEntry) :=
  (fileParse 4 (cstr ":") false content).map fun pls =>
    pls.map fun pl => ⟨field pl 0, field pl 1, field pl 2, isEnabled (field pl 3)⟩

/-! ### The blocklist -/

/-- `ip_prefix_parse`: the address and the length of the prefix. -/
def ipPrefixParse (ipstr : CString) : Option (Sock × ℕ) := do
  let ip := ipstr.takeWhile (· ≠ 0x2f)
  let rest := ipstr.dropWhile (· ≠ 0x2f)
  if ip.length > 40 then none
  let prefixlen ← if rest = [] then some none else (sscanfD rest.tail).map fun v => some v.toInt
  let sock ← ipConvert ip
  let pmax := 8 * sock.bytes.length
  match prefixlen with
  | none => some (sock, pmax)
  | some prefixlen =>
    if 0 ≤ prefixlen ∧ prefixlen ≤ pmax then some (sock, prefixlen.toNat) else none

/-- `_prefix_check_ip`: the address is all zeros after the prefix. -/
def prefixCheckIp (sock : Sock) (prefixlen : ℕ) : Bool :=
  let bits0 := 8 * sock.bytes.length - prefixlen
  let last := sock.bytes.reverse
  (last.take (bits0 / 8)).all (· = 0) &&
    (bits0 % 8 = 0 || (last.getD (bits0 / 8) 0).toNat % 2 ^ (bits0 % 8) = 0)

/-- `prefix_quota_parse`. The quota is read as an `unsigned int` and stored as an `int`. -/
def prefixQuotaParse (ipPrefix quotaStr : CString) : Option PrefixQuota := do
  let quota ← (sscanfLu quotaStr).map fun v => (BitVec.ofNat 32 v).toInt
  if quota < -1 then none
  let (addr, len) ← ipPrefixParse ipPrefix
  if prefixCheckIp addr len then some ⟨⟨addr, len⟩, quota⟩ else none

/-- `prefix_table_add`. -/
def prefixTableAdd (this : PrefixTable) (newEntry : PrefixQuota) : PrefixTable :=
  match newEntry.pfx.addr with
  | .inet6 _ => { this with v6Table := this.v6Table ++ [newEntry] }
  | _ => { this with v4Table := this.v4Table ++ [newEntry] }

/-- `prefix_table_sort`, by increasing length. -/
def prefixTableSort (this : PrefixTable) : PrefixTable where
  v6Table := this.v6Table.mergeSort fun p q => p.pfx.len ≤ q.pfx.len
  v4Table := this.v4Table.mergeSort fun p q => p.pfx.len ≤ q.pfx.len

/-- `prefix_table_read`, into a new table. A line whose fields cannot be parsed is skipped. -/
def prefixTableRead (content : List Byte) : Option PrefixTable :=
  (fileParse 2 (cstr "\t ") true content).map fun pls =>
    prefixTableSort ((pls.filterMap fun pl => prefixQuotaParse (field pl 0) (field pl 1)).foldl
      prefixTableAdd ⟨[], []⟩)

end ChilopodCaster
