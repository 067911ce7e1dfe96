import Mathlib.Data.List.Sort
import Mathlib.Data.String.Basic
import LoxilbUi.Library.JsString
import LoxilbUi.Types.BandTriple
import LoxilbUi.Types.LoadBalancer

-- hooks/query/lbRuleApplied.ts: whether a rule that was written is listed and reads back with the
-- values that were sent.

namespace LBRuleApplied

open AIGateway LoadBalancer

-- How one member of `serviceArguments` takes part in the confirmation.
inductive LBFieldConfirmation
  | identity
  | echo
  | echoAs (absentAs : String) (fullproxyOnly : Bool)
  | nonzero
  | members (ms : List String)
  | patchOnly
  | triple
  | skip
  deriving DecidableEq

open LBFieldConfirmation in
def lbFieldConfirmation : List (String × LBFieldConfirmation) := [
  -- Which rule.
  ("externalIP", identity),
  ("port", identity),
  ("portMax", identity),
  ("protocol", identity),
  ("host", identity),
  ("path_prefix", identity),
  ("path_match_mode", identity),
  ("model_name", identity),
  ("name", identity),
  ("block", identity),
  -- Stored and returned as sent.
  ("sel", echo),
  ("mode", echo),
  ("security", echo),
  ("connectionLimit", echo),
  ("monitor", echo),
  ("probetype", echo),
  ("probeport", echo),
  ("probereq", echo),
  ("proberesp", echo),
  ("probeTimeout", echo),
  ("probeRetries", echo),
  ("proxyprotocolv2", echo),
  ("egress", echo),
  ("trace_type", echo),
  ("sse_mode", echo),
  ("api_key_auth", echo),
  ("jwt_auth_profile", echo),
  ("mcp_protocol_version", echo),
  ("eppEndpoint", nonzero),
  ("eppFailureMode", nonzero),
  ("eppTimeoutMs", nonzero),
  ("eppPlaintext", nonzero),
  ("max_stream_duration_sec", echo),
  ("backend_keepalive_interval_sec", echo),
  ("cb_enable", echo),
  ("pd_disagg_mode", echo),
  ("pd_cache_aware_mode", echo),
  ("pd_session_ttl_sec", echo),
  ("pd_prefill_timeout_sec", echo),
  ("pd_cache_threshold", echo),
  ("pd_balance_abs_threshold", echo),
  ("fc_max_queue_depth", echo),
  ("fc_max_queue_wait_ms", echo),
  ("fc_max_outstanding", echo),
  ("fc_ep_max_inflight", echo),
  ("fc_prefill_max_inflight", echo),
  ("fc_decode_max_inflight", echo),
  ("fc_telemetry_stale_ms", echo),
  ("fc_warmup_ms", echo),
  ("fc_ttft_target_ms", echo),
  ("fc_tenant_max_share_pct", echo),
  ("fc_critical_reserve_pct", echo),
  ("ai_default_max_tokens", echo),
  ("ai_objective_strict", echo),
  ("backend_ca_cert_id", echo),
  ("backend_client_cert_id", echo),
  ("backend_tls_server_name", echo),
  ("timeoutMemberConnect", echo),
  ("timeoutMemberData", echo),
  ("timeoutTcpInspect", echo),
  ("alpn_protocols", echo),
  ("tls_ciphers", echo),
  ("tls_versions", echo),
  ("hsts_max_age", echo),
  ("hsts_include_subdomains", echo),
  ("hsts_preload", echo),
  -- Stored as sent; the named value is what "left out" means.
  ("fc_mode", echoAs "inherit" false),
  ("fc_adaptive", echoAs "inherit" false),
  ("fc_expose_headers", echoAs "inherit" false),
  ("fc_wake_policy", echoAs "inherit" false),
  ("fc_shed_queue", echoAs "inherit" false),
  ("fc_tenant_wake", echoAs "inherit" false),
  ("fc_llmd_headers", echoAs "inherit" false),
  ("ai_default_reservation", echoAs "inherit" false),
  ("fc_band_weights", triple),
  ("fc_band_min_share_pct", triple),
  ("fc_band_queue_pct", triple),
  ("fc_band_wait_ms", triple),
  ("backend_protocol", echoAs "http1" true),
  ("sockMapMode", echoAs "off" true),
  ("half_close_mode", echoAs "inherit" true),
  -- Zero asks for the protocol's default timeout, which then reads back.
  ("inactiveTimeOut", nonzero),
  ("mtls_frontend", members ["client_cert_mode", "client_ca_path", "client_ca_cert_data",
    "require_client_cn", "client_cn_pattern", "client_crl_path"]),
  ("mtls_backend", members ["verify_server_cert"]),
  ("adminStateUp", patchOnly),
  -- Never compared.
  ("id", skip),
  ("snat", skip),
  ("managed", skip),
  ("bgp", skip),
  ("projectId", skip),
  ("annotations", skip),
  ("session_header_name", skip),
  ("privateIP", skip),
  ("oper", skip),
  ("vip_qos_policy_id", skip),
  ("fc_effective", skip),
  ("half_close_effective", skip),
  ("backend_tls_effective", skip),
  ("kvExactMode", skip),
  ("kvBlockSize", skip),
  ("kvHashAlgo", skip),
  ("kvZmqPort", skip),
  ("kvWarmupSec", skip),
  ("kvEngineType", skip),
  ("kvDpRankCount", skip),
  ("kvExactApiMode", skip),
  ("kvModelProfile", skip),
  ("pdBootstrapPort", skip),
  ("chwbl_prefix_hash_level", skip),
  ("chwbl_prefix_hash_flags", skip),
  ("chwbl_mean_load_factor", skip),
  ("chwbl_replication", skip),
  ("chwbl_enable_cache_salt", skip)
]

def endpointFields : List String :=
  ["weight", "ep_role", "nixl_port", "backup"]

mutual

-- What the gateway leaves out of a read-back: nothing, zero, false, empty.
def isZero : JsValue → Bool
  | .undefined | .null => true
  | .bool b            => !b
  | .number n          => n.strictEq 0
  | .string s          => s = ""
  | .array vs          => vs.isEmpty
  | .object ms         => membersZero ms

def membersZero : List (String × JsValue) → Bool
  | []           => true
  | (_, v) :: ms => isZero v && membersZero ms

end

mutual

-- Submitted against served, with zero and absent equal and nothing else merged.
def sameValue (asked served : JsValue) : Bool :=
  if isZero asked then isZero served else
  match asked, served with
  | .array vs, .array ws              => vs.length = ws.length && itemsSame vs ws
  | .array _, _                       => false
  | .object ms, .object _             => membersSame ms served
  -- An array is an object too.
  | .object ms, .array _              => membersSame ms served
  | .object _, _                      => false
  | asked, served                     => asked.strictEq served

def itemsSame : List JsValue → List JsValue → Bool
  | v :: vs, w :: ws => sameValue v w && itemsSame vs ws
  | v :: vs, []      => sameValue v .undefined && itemsSame vs []
  | [], _            => true

def membersSame : List (String × JsValue) → JsValue → Bool
  | [], _                => true
  | (key, v) :: ms, served => sameValue v (served.get key) && membersSame ms served

end

def text : JsValue → String
  | .string s => s
  | _         => ""

-- A range is a range only when it reaches past the port; otherwise it is not returned.
def portMaxOf (args : JsObject) : JsNumber :=
  match args.get "portMax", args.get "port" with
  | .number portMax, .number port => if port.lt portMax then portMax else 0
  | _, _                          => 0

-- "disabled" is stored as nothing, so it and absence are one mode.
def matchMode (args : JsObject) : String :=
  let mode := text <| args.get "path_match_mode"
  if mode = "disabled" then "" else mode

def blockOf (args : JsObject) : JsNumber :=
  match args.get "block" with
  | .number block => block
  | _             => 0

-- The same listener tuple, and the same discriminators, those that the request left empty among them. Of the protocol
-- only the case of ASCII letters is made alike.
def sameRule (want got : JsObject) : Bool :=
  if text (got.get "externalIP") ≠ text (want.get "externalIP") then false
  else if !(got.get "port").strictEq (want.get "port") then false
  else if !(portMaxOf got).strictEq (portMaxOf want) then false
  else if JsString.toLowerCase (text <| got.get "protocol") ≠
    JsString.toLowerCase (text <| want.get "protocol") then false
  else if text (got.get "host") ≠ text (want.get "host") then false
  else if text (got.get "path_prefix") ≠ text (want.get "path_prefix") then false
  else if text (got.get "model_name") ≠ text (want.get "model_name") then false
  else if matchMode got ≠ matchMode want then false
  -- The gateway names a rule that was sent without a name.
  else if text (want.get "name") ≠ "" && !(got.get "name").strictEq (want.get "name") then false
  else (blockOf want).strictEq (blockOf got)

inductive Write
  | post
  | patch
  deriving DecidableEq

-- `(want.mode ?? got.mode) === 4`
def fullproxy (want got : JsObject) : Bool :=
  let mode := if (want.get "mode").isNil then got.get "mode" else want.get "mode"
  mode.strictEq (.number 4)

def settle (absentAs : String) (value : JsValue) : JsValue :=
  if isZero value then .string absentAs else value

-- The test of one submitted member, by how its field is classified.
def confirmsAs (fullproxy : Bool) (write : Write) (asked served : JsValue) :
    LBFieldConfirmation → Bool
  | .identity | .skip => true
  | .patchOnly        => write ≠ .patch || sameValue asked served
  | .nonzero          => isZero asked || asked.strictEq served
  | .members ms       =>
    match asked with
    -- An object of zeros is still a request.
    | .object _ | .array _ =>
      ms.all fun member => !asked.has member || sameValue (asked.get member) (served.get member)
    | _ => true
  | .triple           => canonicalBandTriple asked = canonicalBandTriple served
  | .echo             => sameValue asked served
  | .echoAs absentAs fullproxyOnly =>
    if fullproxyOnly && !fullproxy then true
    else (settle absentAs asked).strictEq (settle absentAs served)

-- A field that the contract does not declare was never classified.
def sameArguments (want got : JsObject) (write : Write) : Bool :=
  want.entries.all fun (field, asked) =>
    (lbFieldConfirmation.lookup field).all fun rule =>
      confirmsAs (fullproxy want got) write asked (got.get field) rule

def targetPortText (endpoint : JsObject) : String :=
  let targetPort := endpoint.get "targetPort"
  if targetPort.isNil then "" else targetPort.toText

-- One backend, as the rule keys it.
def endpointKey (endpoint : JsObject) : String :=
  text (endpoint.get "endpointIP") ++ "|" ++ targetPortText endpoint

def byKey (endpoints : List JsObject) : Dict JsObject :=
  .ofList <| endpoints.map fun endpoint => (endpointKey endpoint, endpoint)

def sameEndpoint (endpoint row : JsObject) : Bool :=
  endpointFields.all fun field =>
    !endpoint.has field || sameValue (endpoint.get field) (row.get field)

-- Every backend that was sent is there with the values sent, and no other backend is.
def sameEndpoints (asked : List JsObject) (served : Option (List JsObject)) : Bool :=
  let want := byKey asked
  let got := byKey <| served.getD []
  want.size = got.size && want.entries.all fun (key, endpoint) =>
    (got.get? key).any fun row => sameEndpoint endpoint row

section SourcePrefix

def isNumeral (n : Nat) (ds : List Char) : Bool :=
  ds ≠ [] && ds.length ≤ n && ds.all Char.isDigit

-- What `/^(\d{1,3})\.(\d{1,3})\.(\d{1,3})\.(\d{1,3})\/(\d{1,2})$/` captures.
def prefixMatch (t : String) : Option (List Nat × Nat) :=
  match t.toList.splitOn '/' with
  | [address, bits] =>
    let octets := address.splitOn '.'
    if octets.length = 4 && octets.all (isNumeral 3) && isNumeral 2 bits then
      some (octets.map (Nat.ofDigitChars 10 · 0), Nat.ofDigitChars 10 bits 0)
    else none
  | _ => none

def octetOf (octets : List Nat) (i : Nat) : BitVec 32 :=
  .ofNat 32 (octets.getD i 0)

def addressOf (octets : List Nat) : BitVec 32 :=
  octetOf octets 0 <<< 24 ||| octetOf octets 1 <<< 16 ||| octetOf octets 2 <<< 8 ||| octetOf octets 3

def maskOf (bits : Nat) : BitVec 32 :=
  if bits = 0 then 0 else 0xffffffff#32 <<< (32 - bits)

def networkText (network : BitVec 32) (bits : Nat) : String :=
  ".".intercalate ([network >>> 24, network >>> 16 &&& 255, network >>> 8 &&& 255,
    network &&& 255].map fun octet => octet.toNat.repr) ++ "/" ++ bits.repr

-- The network, host bits cleared. IPv6 is compared as written, its ASCII letters small.
def canonicalSourcePrefix (source : String) : String :=
  match prefixMatch <| JsString.trim source with
  | none => JsString.toLowerCase <| JsString.trim source
  | some (octets, bits) =>
    if bits > 32 || octets.any (· > 255) then JsString.trim source
    else networkText (addressOf octets &&& maskOf bits) bits

end SourcePrefix

-- Only ever compared with one another, so any total order does.
def sortedTexts (values : List String) : List String :=
  values.insertionSort (· ≤ ·)

def sourceText (source : JsObject) : String :=
  canonicalSourcePrefix <| text <| source.get "prefix"

def sameSources (asked : List JsObject) (served : Option (List JsObject)) : Bool :=
  sortedTexts (asked.map sourceText) = sortedTexts ((served.getD []).map sourceText)

def secondaryText (ip : JsObject) : String :=
  text <| ip.get "secondaryIP"

def sameSecondaryIPs (asked : List JsObject) (served : Option (List JsObject)) : Bool :=
  sortedTexts (asked.map secondaryText) = sortedTexts ((served.getD []).map secondaryText)

-- A whole rule, or the listener tuple plus the changed members. A list that it does not carry was not
-- written.
abbrev LBRuleSubmission :=
  ServiceConfiguration

-- Secondary addresses exist on SCTP rules only.
def isSctp (args : JsObject) : Bool :=
  JsString.toLowerCase (text <| args.get "protocol") = "sctp"

def rowApplied (submitted : LBRuleSubmission) (write : Write) (row : ServiceConfiguration) : Bool :=
  let want := submitted.serviceArguments
  if !sameRule want row.serviceArguments then false
  else if !sameArguments want row.serviceArguments write then false
  else if submitted.endpoints.any fun asked => !sameEndpoints asked row.endpoints then false
  else if submitted.allowedSources.any fun asked => !sameSources asked row.allowedSources then false
  else !submitted.secondaryIPs.any fun asked =>
    isSctp want && !sameSecondaryIPs asked row.secondaryIPs

def lbRuleApplied (submitted : LBRuleSubmission) (write : Write) (rows : List ServiceConfiguration) :
    Bool :=
  rows.any <| rowApplied submitted write

end LBRuleApplied
