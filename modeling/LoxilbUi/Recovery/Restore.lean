import LoxilbUi.Library.Base64
import LoxilbUi.Library.Script
import LoxilbUi.Recovery.SnapshotDbPackage

-- scripts/recovery/snapshot_db_package.py: the commands that the script runs to make a package of a cluster, and
-- to restore one into another.

namespace Recovery

-- Further of what the script calls: `.decode().strip()` and `int(…)`.
structure Python extends Host where
  text : Bytes → Except Raised String
  int  : String → Except Raised Int

-- A command with what it reads, or a new file that only its owner may read.
inductive Call
  | run (args : List String) (data : Option Bytes)
  | write (path : String) (data : Bytes)
  deriving DecidableEq

abbrev Py :=
  Script Call Bytes Raised

namespace PyValue

-- `value[0]`
def first : PyValue → Except Raised PyValue
  | list (v :: _) => .ok v
  | list []       => .error <| .other "IndexError"
  | str s         => match s.toList with
    | c :: _ => .ok <| str <| .ofList [c]
    | []     => .error <| .other "IndexError"
  | dict _        => .error <| .other "KeyError"
  | _             => .error <| .other "TypeError"

-- `value.get(key, default)`
def getOr (value : PyValue) (key : String) (default : PyValue) : Except Raised PyValue :=
  match value with
  | dict members => .ok <| (members.lookup key).getD default
  | _            => .error <| .other "AttributeError"

-- `bool(value)`
def truthy : PyValue → Bool
  | none         => false
  | bool b       => b
  | int n        => n ≠ 0
  | float x      => x ≠ 0
  | str s        => s ≠ ""
  | list items   => !items.isEmpty
  | dict members => !members.isEmpty

-- What `for … in value` goes through.
def iter : PyValue → Except Raised (List PyValue)
  | dict members => .ok <| members.map fun (key, _) => str key
  | list items   => .ok items
  | str s        => .ok <| s.toList.map fun c => str (.ofList [c])
  | _            => .error <| .other "TypeError"

end PyValue

def command (args : List String) (data : Option Bytes) : Py Bytes :=
  .call (.run args data) fun out => .done (.ok out)

def inspectNetwork (py : Python) : PyValue → Py Unit
  | .str network => do
    let out ← command ["docker", "network", "inspect", network] none
    let info ← (← py.loads out).first
    require (← info.item "Internal").truthy "Every restore-container network must be internal"
  | _            => .raise <| .other "TypeError"

def inspectNetworks (py : Python) : List PyValue → Py Unit
  | []                  => pure ()
  | network :: networks => do
    inspectNetwork py network
    inspectNetworks py networks

-- What `isolated` asks for.
def inspectIsolation (py : Python) (info : PyValue) : Py Unit := do
  let networks ← (← info.item "NetworkSettings").item "Networks"
  require networks.truthy "Restore requires private networks and no published ports"
  let bindings ← (← info.item "HostConfig").getOr "PortBindings" .none
  require (!bindings.truthy) "Restore requires private networks and no published ports"
  inspectNetworks py (← networks.iter)

def inspectContainer (py : Python) (name owner : String) (isolated : Bool) : Py PyValue := do
  let out ← command ["docker", "inspect", name] none
  let info ← (← py.loads out).first
  let labels ← (← info.item "Config").getOr "Labels" (.dict [])
  require ((← labels.getOr "owner" .none).eqStr owner) "Container ownership or running state mismatch"
  require (← (← info.item "State").item "Running").truthy "Container ownership or running state mismatch"
  if isolated then inspectIsolation py info else pure ()
  return info

def pgArgs (args : List String) (container user database : String) : List String :=
  ["docker", "exec", "-i", container] ++ args ++ ["-U", user, "-d", database]

def pg (args : List String) (container user database : String) (data : Option Bytes) : Py Bytes :=
  command (pgArgs args container user database) data

def psqlArgs (query : String) : List String :=
  ["psql", "-X", "-v", "ON_ERROR_STOP=1", "-Atc", query]

def sql (py : Python) (container user database query : String) : Py String := do
  let out ← pg (psqlArgs query) container user database none
  liftM <| py.text out

def systemQuery : String :=
  "SELECT system_identifier FROM pg_control_system()"

def versionQuery : String :=
  "SHOW server_version_num"

structure Identity where
  systemIdentifier : String
  postgresMajor    : Int

def identity (py : Python) (container user database : String) : Py Identity := do
  let system ← sql py container user database systemQuery
  let version ← py.int (← sql py container user database versionQuery)
  return ⟨system, version.fdiv 10000⟩

-- An opened key file, as `fstat` tells of it.
structure KeyFile where
  regular : Bool
  mode    : Nat
  uid     : Nat
  content : Bytes

def readKey (euid : Nat) (file : KeyFile) : Except Raised Bytes := do
  require (file.regular && file.mode % 0o100 = 0 && file.uid = euid)
    "Key must be an owner-only regular file owned by this user"
  let key := file.content.take 33
  require (key.length = 32) "Key file must contain exactly 32 random bytes"
  return key

structure Args where
  container : String
  owner     : String
  dbUser    : String
  database  : String

section Restore

def isDestinationChar (c : Char) : Bool :=
  c.isLower || c.isDigit || c = '_'

-- `re.fullmatch(r'recovery_[a-z0-9_]{1,40}', database)`
def isDestination (database : String) : Bool :=
  let rest := database.toList.drop 9
  database.toList.take 9 = "recovery_".toList && 1 ≤ rest.length && rest.length ≤ 40 && rest.all isDestinationChar

def summaryKeys : List String :=
  ["format", "captured_utc", "snapshot_schema", "management_sessions", "restore_policy"]

def summary (payload : PyValue) : Except Raised (List (String × PyValue)) :=
  summaryKeys.mapM fun key => return (key, ← payload.item key)

def countQuery (database : String) : String :=
  "SELECT count(*) FROM pg_database WHERE datname='" ++ database ++ "'"

def createQuery (database : String) : String :=
  "CREATE DATABASE " ++ database ++ " TEMPLATE template0"

def revokeQuery (database : String) : String :=
  "REVOKE CONNECT ON DATABASE " ++ database ++ " FROM PUBLIC"

def disableQuery : String :=
  "UPDATE aigw.api_keys SET enabled=FALSE"

def enabledQuery : String :=
  "SELECT count(*) FROM aigw.api_keys WHERE enabled"

def sessionsQuery : String :=
  "SELECT count(*) FROM information_schema.tables WHERE table_schema='aigw_mgmt' AND table_name='token'"

def pgRestoreArgs : List String :=
  ["pg_restore", "--single-transaction", "--exit-on-error", "--no-owner", "--no-acl"]

-- What stands between the package and the first command that writes.
def restoreChecks (py : Python) (args : Args) (payload : PyValue) : Py Unit := do
  require (isDestination args.database) "Destination name must match recovery_[a-z0-9_]\x7b1,40\x7d"
  let _ ← inspectContainer py args.container args.owner true
  let target ← identity py args.container args.dbUser "postgres"
  let system ← (← payload.item "source").item "system_identifier"
  require (!system.eqStr target.systemIdentifier) "Source PostgreSQL cluster cannot be a restore target"
  let major ← (← payload.item "source").item "postgres_major"
  require (major.eqInt target.postgresMajor) "PostgreSQL major version mismatch"
  let existing ← sql py args.container args.dbUser "postgres" <| countQuery args.database
  require (existing = "0") "Destination database already exists; never overwrite or merge"

-- The commands that write, and what is verified behind them.
def restoreDump (py : Python) (args : Args) (dump : Bytes) : Py Unit := do
  let _ ← sql py args.container args.dbUser "postgres" <| createQuery args.database
  let _ ← sql py args.container args.dbUser "postgres" <| revokeQuery args.database
  let _ ← pg pgRestoreArgs args.container args.dbUser args.database (some dump)
  let _ ← sql py args.container args.dbUser args.database disableQuery
  let enabled ← sql py args.container args.dbUser args.database enabledQuery
  let sessions ← sql py args.container args.dbUser args.database sessionsQuery
  require (enabled = "0" && sessions = "0") "Restored database quarantine verification failed"

-- `restore` of what the package and the key file hold; the result is what it prints.
def restore (py : Python) (args : Args) (euid : Nat) (package : Except Raised Bytes) (key : Except Raised KeyFile) :
    Py PyValue := do
  let raw ← package
  let opened ← unsealPackage py.toHost raw (← readKey euid (← key))
  restoreChecks py args opened.payload
  restoreDump py args opened.dump
  let told ← summary opened.payload
  return .dict <| told ++ [("database", .str args.database), ("enabled_api_keys", .int 0),
    ("restored_management_sessions", .int 0), ("cutover_performed", .bool false)]

end Restore

section Export

def isLineBreak (c : Char) : Bool :=
  c.toNat ∈ [0x0A, 0x0B, 0x0C, 0x0D, 0x1C, 0x1D, 0x1E, 0x85, 0x2028, 0x2029]

-- `str.splitlines()`; `line` is what was read of the line so far, last first.
def splitLines (line : List Char) : List Char → List String
  | []                  => if line = [] then [] else [.ofList line.reverse]
  | '\r' :: '\n' :: l   => .ofList line.reverse :: splitLines [] l
  | c :: l              =>
    if isLineBreak c then .ofList line.reverse :: splitLines [] l else splitLines (c :: line) l

def tablesQuery : String :=
  "SELECT table_name FROM information_schema.tables WHERE table_schema='aigw_mgmt'"

def pgDumpArgs : List String :=
  ["pg_dump", "-Fc", "--no-owner", "--no-acl", "--schema=aigw", "--schema=aigw_mgmt",
    "--exclude-table=aigw_mgmt.token"]

def payloadOf (py : Python) (captured : String) (source : Identity) (schema : PyValue) (dump snapshot : Bytes) : PyValue :=
  .dict [
    ("format", .int 1), ("captured_utc", .str captured),
    ("source", .dict [("system_identifier", .str source.systemIdentifier), ("postgres_major", .int source.postgresMajor)]),
    ("snapshot_schema", schema), ("dump_sha256", .str <| py.sha256 dump), ("snapshot_sha256", .str <| py.sha256 snapshot),
    ("dump", .str <| Base64.encode dump), ("snapshot", .str <| Base64.encode snapshot),
    ("management_sessions", .str "excluded"), ("restore_policy", .str "new-isolated-cluster-db-all-api-keys-disabled")]

-- `export`, at a time and with a nonce, of what the files of the snapshot and the key hold.
def exportPackage (py : Python) (args : Args) (output captured : String) (nonce : Nonce) (euid : Nat)
    (snapshot : Except Raised Bytes) (key : Except Raised KeyFile) : Py PyValue := do
  let _ ← inspectContainer py args.container args.owner false
  let source ← identity py args.container args.dbUser args.database
  let tables := splitLines [] (← sql py args.container args.dbUser args.database tablesQuery).toList
  require (tables.contains "users" && tables.all (· ∈ ["users", "token"]))
    "Unsupported management schema; review session exclusions before exporting"
  let snapshot ← snapshot
  let doc ← py.loads snapshot
  require ((← doc.getOr "kind" .none).eqStr "loxilb-snapshot") "A Gateway snapshot document is required"
  require (← doc.getOr "checksum" .none).truthy "A Gateway snapshot document is required"
  require (← doc.getOr "schema_version" .none).truthy "A Gateway snapshot document is required"
  let dump ← pg pgDumpArgs args.container args.dbUser args.database none
  let payload := payloadOf py captured source (← doc.item "schema_version") dump snapshot
  let package ← sealPackage py.toHost nonce payload (← readKey euid (← key))
  let _ ← Script.call (.write output package) fun out => .done (.ok out)
  return .dict (← summary payload)

end Export

end Recovery
