import LoxilbUi.Library.JsNumber

-- scripts/recovery/snapshot_db_package.py: the encrypted package of a database dump and a snapshot.

namespace Recovery

abbrev Bytes :=
  List UInt8

-- What a JSON document is read as.
inductive PyValue
  | none
  | bool (b : Bool)
  | int (n : Int)
  | float (x : JsNumber)
  | str (s : String)
  | list (items : List PyValue)
  | dict (members : List (String × PyValue))

-- A `RecoveryError` with its message, or any other exception.
inductive Raised
  | recovery (message : String)
  | other (type : String)
  deriving DecidableEq

namespace PyValue

-- `value[key]`
def item (key : String) : PyValue → Except Raised PyValue
  | dict members => match members.lookup key with
    | some v       => .ok v
    | Option.none  => .error <| .other "KeyError"
  | _            => .error <| .other "TypeError"

-- `value == n`. A truth value is a number, and a number without a fraction is a whole one.
def eqInt (n : Int) : PyValue → Bool
  | bool b  => (if b then 1 else 0) = n
  | int m   => m = n
  | float x => x = .finite (.ofInt n)
  | _       => false

-- `value == s`
def eqStr (s : String) : PyValue → Bool
  | str t => t = s
  | _     => false

end PyValue

-- What the script calls: `json.dumps(…).encode()`, `json.loads`, `base64.b64decode` (which accepts a surplus of
-- padding in some versions), `hashlib.sha256(…).hexdigest()` and the methods of `AESGCM(key)`.
structure Host where
  dumps     : PyValue → Except Raised Bytes
  loads     : Bytes → Except Raised PyValue
  b64decode : PyValue → Except Raised Bytes
  sha256    : Bytes → String
  encrypt   : (key nonce data aad : Bytes) → Except Raised Bytes
  decrypt   : (key nonce data aad : Bytes) → Except Raised Bytes

def ascii (s : String) : Bytes :=
  s.toList.map fun c => .ofNat c.toNat

def magic : Bytes :=
  ascii "LXDBPKG1"

def aad : Bytes :=
  ascii "loxilb-auth-recovery-v1"

def maxPackage : Nat :=
  256 * 1024 * 1024

-- `os.urandom(12)`
abbrev Nonce :=
  Vector UInt8 12

-- Raises a `RecoveryError` unless `c`.
def require (c : Bool) (message : String) : Except Raised Unit :=
  if c then .ok () else .error <| .recovery message

-- `seal`
def sealPackage (host : Host) (nonce : Nonce) (payload : PyValue) (key : Bytes) : Except Raised Bytes := do
  let raw ← host.dumps payload
  require (raw.length ≤ maxPackage) "Package exceeds the memory/size budget"
  let data ← host.encrypt key nonce.toList raw aad
  return magic ++ nonce.toList ++ data

structure Opened where
  payload  : PyValue
  dump     : Bytes
  snapshot : Bytes

-- What `unseal` tries.
def contents (host : Host) (raw key : Bytes) : Except Raised Opened := do
  let payload ← host.loads (← host.decrypt key ((raw.drop 8).take 12) (raw.drop 20) aad)
  require ((← payload.item "format").eqInt 1) "Unknown package format"
  let dump ← host.b64decode (← payload.item "dump")
  let snapshot ← host.b64decode (← payload.item "snapshot")
  require ((← payload.item "dump_sha256").eqStr <| host.sha256 dump) "Package digest mismatch"
  require ((← payload.item "snapshot_sha256").eqStr <| host.sha256 snapshot) "Package digest mismatch"
  return ⟨payload, dump, snapshot⟩

-- `unseal`
def unsealPackage (host : Host) (raw key : Bytes) : Except Raised Opened :=
  if !magic.isPrefixOf raw || maxPackage + 64 < raw.length then
    .error <| .recovery "Invalid package header or size"
  else match contents host raw key with
    | .ok opened => .ok opened
    | .error _   => .error <| .recovery "Package authentication or content validation failed"

end Recovery
