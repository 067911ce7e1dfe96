import LoxilbUi.Library.JsNumeral
import LoxilbUi.Library.JsString
import LoxilbUi.Types.BackendTls
import LoxilbUi.Types.BandTriple

-- types/ai_gateway.ts: what a rule of the inference gateway may hold, and which of it goes on the
-- wire. What reads a member that is not of its type throws: `none`.

namespace AIGateway

open LoadBalancer BackendTls

inductive AITopology
  | plain
  | pd
  | singleRole
  deriving DecidableEq

section Fields

def fcNumericMax : List (String × Nat) := [
  ("fc_max_outstanding", 100000),
  ("fc_ep_max_inflight", 100000),
  ("fc_prefill_max_inflight", 100000),
  ("fc_decode_max_inflight", 100000),
  ("fc_max_queue_depth", 65536),
  ("fc_max_queue_wait_ms", 3600000),
  ("fc_telemetry_stale_ms", 3600000),
  ("fc_warmup_ms", 3600000),
  ("fc_ttft_target_ms", 3600000),
  ("fc_tenant_max_share_pct", 100)
]

def fcNumericFields : List String :=
  fcNumericMax.map Prod.fst

def fcCliOnlyFields : List String :=
  ["fc_wake_policy", "fc_band_weights", "fc_band_min_share_pct", "fc_band_queue_pct",
    "fc_band_wait_ms", "fc_critical_reserve_pct", "fc_shed_queue", "fc_tenant_wake",
    "fc_llmd_headers"]

def aiAdmissionFields : List String :=
  ["ai_default_reservation", "ai_default_max_tokens", "ai_objective_strict"]

def fcEditableFields : List String :=
  ["fc_mode", "fc_adaptive", "fc_expose_headers"] ++ fcNumericFields

def fcFields : List String :=
  fcEditableFields ++ fcCliOnlyFields

-- Every admission member, which the gateway keeps when a replace leaves it out.
def admissionFields : List String :=
  fcFields ++ aiAdmissionFields

def fcPdOnlyFields : List String :=
  ["fc_prefill_max_inflight", "fc_decode_max_inflight", "fc_telemetry_stale_ms"]

def readOnlyServiceArguments : List String :=
  ["fc_effective", "half_close_effective", "backend_tls_effective"]

def chwblTuningFields : List String :=
  ["chwbl_mean_load_factor", "chwbl_replication", "chwbl_enable_cache_salt"]

def aiOnlyFields : List String :=
  aiAdmissionFields ++ ["model_name", "api_key_auth", "jwt_auth_profile", "trace_type",
    "session_header_name", "chwbl_prefix_hash_level", "chwbl_prefix_hash_flags", "sse_mode",
    "max_stream_duration_sec", "backend_keepalive_interval_sec", "pd_disagg_mode",
    "pd_cache_aware_mode", "pd_session_ttl_sec", "pd_prefill_timeout_sec", "pd_cache_threshold",
    "pd_balance_abs_threshold", "kvExactMode", "kvBlockSize", "kvHashAlgo", "kvZmqPort",
    "kvWarmupSec", "kvEngineType", "kvDpRankCount", "pdBootstrapPort", "kvModelProfile",
    "kvExactApiMode"] ++ fcFields

def kvFields : List String :=
  ["kvExactMode", "kvBlockSize", "kvHashAlgo", "kvZmqPort", "kvWarmupSec", "kvDpRankCount"]

def pdTuningFields : List String :=
  ["pd_cache_aware_mode", "pd_session_ttl_sec", "pd_prefill_timeout_sec", "pd_cache_threshold",
    "pd_balance_abs_threshold"]

end Fields

section Resolve

def resolveAIEngine (engine : JsValue) : JsValue :=
  if engine.truthy then engine else .string "vllm"

def resolveAITopology (args : JsObject) : AITopology :=
  if (args.get "pd_disagg_mode").truthy then .pd
  else if (args.get "kvExactMode").strictEq (.number 3) then .singleRole
  else .plain

-- Whether the gateway runs an admission pool for this rule.
def isAIService (args : JsObject) : Bool :=
  if !(args.get "mode").strictEq (.number 4) then false
  else (args.get "sse_mode").truthy || (args.get "pd_disagg_mode").truthy ||
    ((args.get "api_key_auth").truthy && !(args.get "api_key_auth").strictEq (.string "disabled"))

def isChwblSelector (sel : JsValue) : Bool :=
  sel.strictEq (.number 8) || sel.strictEq (.number 10)

-- An engine that is not one of the four has no hashes to look into.
def allowedAIHashes (engine : JsValue) : Option (List String) :=
  [("vllm", ["sha256_cbor", "xxhash_cbor"]), ("sglang", ["sha256_sglang"]),
    ("trtllm", ["blockhash_trtllm"]), ("llamacpp", [])].lookup engine.toText

def isFcBlank (value : JsValue) : Bool :=
  value.isNil || value.strictEq (.string "")

def hasValue (value : JsValue) : Bool :=
  !value.isNil && !value.strictEq (.string "")

end Resolve

section Validate

def isIntegerFrom (low : JsNumber) : JsValue → Bool
  | .number n => n.isInteger && !n.lt low
  | _         => false

def isPositiveInteger (value : JsValue) : Bool :=
  isIntegerFrom 1 value

def isNonNegativeInteger (value : JsValue) : Bool :=
  isIntegerFrom 0 value

-- `value > max`, of a number.
def exceeds (value : JsValue) (max : Nat) : Bool :=
  match value with
  | .number n => JsNumber.lt (.finite <| .ofInt max) n
  | _         => false

def isPort (value : JsValue) : Bool :=
  isPositiveInteger value && !exceeds value 65535

def isPortOrZero (value : JsValue) : Bool :=
  isNonNegativeInteger value && !exceeds value 65535

def oneOf (numbers : List JsNumber) (value : JsValue) : Bool :=
  numbers.any fun n => value.strictEq (.number n)

def isUndefined : JsValue → Bool
  | .undefined => true
  | _          => false

def validateEndpointTopology (engine : JsValue) (topology : AITopology) (endpoints : List JsObject) :
    List ValidationIssue :=
  let hasRole (n : JsNumber) := endpoints.any fun endpoint =>
    (endpoint.get "ep_role").strictEq (.number n)
  let someOther (field : String) := endpoints.any fun endpoint =>
    !isUndefined (endpoint.get field) && !(endpoint.get field).strictEq (.number 0)
  if topology = .pd then
    issueIf (!hasRole 1) "endpoints"
      "P/D topology requires at least one prefill endpoint (role 1)." ++
    issueIf (!hasRole 2) "endpoints"
      "P/D topology requires at least one decode endpoint (role 2)." ++
    issueIf (engine.strictEq (.string "vllm") && endpoints.any fun endpoint =>
        !isUndefined (endpoint.get "nixl_port") && !isPortOrZero (endpoint.get "nixl_port")) "endpoints"
      "A vLLM NIXL port must be omitted, 0, or a valid TCP port."
  else
    issueIf (someOther "ep_role") "endpoints"
      ((if topology = .singleRole then "Single-role" else "Plain") ++
        " topology requires role-less endpoints.") ++
    issueIf (someOther "nixl_port") "endpoints"
      "NIXL ports are valid only for vLLM P/D endpoints."

def validateAdmissionFields (args : JsObject) (topology : AITopology) : List ValidationIssue :=
  let outside (field : String) (words : List String) :=
    !isFcBlank (args.get field) && !words.any fun word => (args.get field).strictEq (.string word)
  if !isAIService args then []
  else
    issueIf (outside "fc_mode" ["off", "observe", "enforce", "inherit"]) "fc_mode"
      "Admission mode must be off, observe, enforce, or the gateway default." ++
    issueIf (outside "fc_adaptive" ["on", "off", "inherit"]) "fc_adaptive"
      "Adaptive ceiling must be on, off, or the gateway default." ++
    issueIf (outside "fc_expose_headers" ["on", "off", "inherit"]) "fc_expose_headers"
      "Admission response headers must be on, off, or the gateway default." ++
    fcNumericMax.flatMap (fun (field, max) =>
      if topology ≠ .pd && field ∈ fcPdOnlyFields then []
      else issueIf (!isFcBlank (args.get field) &&
          (!isNonNegativeInteger (args.get field) || exceeds (args.get field) max)) field
        (field ++ " must be a whole number from 0 to " ++ max.repr ++ ".")) ++
    issueIf (isPositiveInteger (args.get "fc_max_queue_depth") &&
        !isPositiveInteger (args.get "fc_max_queue_wait_ms")) "fc_max_queue_wait_ms"
      "A queue depth needs a queue wait greater than 0 ms."

-- Off fullproxy: whether a member is set to more than the gateway's own default.
def isActive (args : JsObject) (field : String) : Bool :=
  let value := args.get field
  let isReset := match value with
    | .string s => (tripleParts s).any isResetBandTriple
    | _         => false
  !isUndefined value && !value.strictEq (.string "") && !value.strictEq (.bool false) &&
    !value.strictEq (.number 0) &&
    !(field = "kvEngineType" && value.strictEq (.string "vllm")) &&
    !(field = "kvBlockSize" && value.strictEq (.number 16)) &&
    !(field = "kvZmqPort" && value.strictEq (.number 5557)) &&
    !(field = "kvDpRankCount" && value.strictEq (.number 1)) &&
    !((JsString.startsWith field "fc_" || JsString.startsWith field "ai_") &&
      (value.strictEq (.string "inherit") || isReset))

-- The exact mode against topology and engine.
def validateExactMode (exactMode : JsValue) (engine : JsValue) (topology : AITopology) :
    List ValidationIssue :=
  issueIf (!oneOf [0, 1, 3] exactMode) "kvExactMode"
    "KV exact mode must be 0, 1, or 3; mode 2 is reserved." ++
  issueIf (exactMode.strictEq (.number 1) && topology ≠ .pd) "kvExactMode"
    "KV exact mode 1 requires P/D topology." ++
  issueIf (exactMode.strictEq (.number 3) && topology ≠ .singleRole) "kvExactMode"
    "KV exact mode 3 requires a single-role topology." ++
  issueIf (topology = .pd && engine.strictEq (.string "trtllm") && !exactMode.strictEq (.number 1))
    "kvExactMode" "TensorRT-LLM P/D requires KV exact mode 1." ++
  issueIf (topology = .pd && engine.strictEq (.string "llamacpp")) "pd_disagg_mode"
    "llama.cpp does not support P/D disaggregation."

def validateChwbl (args : JsObject) : List ValidationIssue :=
  let level := args.get "chwbl_prefix_hash_level"
  let flags := args.get "chwbl_prefix_hash_flags"
  let loadFactor := args.get "chwbl_mean_load_factor"
  let replication := args.get "chwbl_replication"
  let chwblSelector := isChwblSelector <| args.get "sel"
  issueIf ((hasValue level || hasValue flags) && !chwblSelector) "chwbl_prefix_hash_level"
    ("CHWBL prefix hash settings require the chwbl load-balancing algorithm (SEL); clear them or " ++
      "switch the algorithm.") ++
  issueIf (hasValue level && !oneOf [1, 2, 3] (.number level.toNumber)) "chwbl_prefix_hash_level"
    "CHWBL prefix hash level must be 1, 2, or 3." ++
  issueIf (hasValue flags && (!isNonNegativeInteger flags || exceeds (.number flags.toNumber) 255))
    "chwbl_prefix_hash_flags" "CHWBL prefix hash flags must be an integer between 0 and 255." ++
  if !chwblSelector then []
  else
    issueIf (hasValue loadFactor && (!isIntegerFrom 100 loadFactor || exceeds loadFactor 300))
      "chwbl_mean_load_factor" "CHWBL mean load factor must be an integer between 100 and 300." ++
    issueIf (hasValue replication && (!isPositiveInteger replication || exceeds replication 1024))
      "chwbl_replication" "CHWBL replication must be an integer between 1 and 1024." ++
    -- The bit of the cache_salt input.
    issueIf ((args.get "chwbl_enable_cache_salt").strictEq (.bool true) && hasValue flags &&
        flags.toNumber ≠ 0 && flags.toNumber.whole % 16 < 8) "chwbl_enable_cache_salt"
      ("Requiring cache_salt needs the cache_salt input (flag bit 3, value 8) in CHWBL prefix hash " ++
        "flags, or flags left at 0.")

def validateTimes (args : JsObject) (topology : AITopology) : List ValidationIssue :=
  let wrong (field : String) :=
    !isUndefined (args.get field) && !isNonNegativeInteger (args.get field)
  let wrongUpTo (field : String) (max : Nat) :=
    !isUndefined (args.get field) &&
      (!isNonNegativeInteger (args.get field) || exceeds (args.get field) max)
  issueIf (wrong "max_stream_duration_sec") "max_stream_duration_sec"
    "Max stream duration must be a non-negative integer." ++
  issueIf (wrong "backend_keepalive_interval_sec") "backend_keepalive_interval_sec"
    "Backend keepalive interval must be a non-negative integer." ++
  if topology ≠ .pd then []
  else
    issueIf (wrong "pd_session_ttl_sec") "pd_session_ttl_sec"
      "P/D session TTL must be a non-negative integer." ++
    issueIf (wrongUpTo "pd_prefill_timeout_sec" 3600) "pd_prefill_timeout_sec"
      "P/D prefill timeout must be an integer between 0 and 3600." ++
    issueIf (wrongUpTo "pd_cache_threshold" 100) "pd_cache_threshold"
      "P/D cache threshold must be an integer between 0 and 100." ++
    issueIf (wrong "pd_balance_abs_threshold") "pd_balance_abs_threshold"
      "P/D balance threshold must be a non-negative integer."

-- Whether the rule is routed by exact KV events.
def usesExactEventRouting (exactMode : JsValue) (topology : AITopology) : Bool :=
  topology = .singleRole || (topology = .pd && exactMode.strictEq (.number 1))

def isIncompatibleHash (engine hash : JsValue) : Option Bool :=
  if !hash.truthy then some false
  else (allowedAIHashes engine).map fun hashes => !hashes.any fun h => hash.strictEq (.string h)

def validateKv (args : JsObject) (exactMode : JsValue) (engine : JsValue) (topology : AITopology) :
    Option (List ValidationIssue) := do
  let exact := !exactMode.strictEq (.number 0)
  let hash := args.get "kvHashAlgo"
  let incompatible ← isIncompatibleHash engine hash
  let bootstrap := args.get "pdBootstrapPort"
  return issueIf (exact && !isPositiveInteger (args.get "kvBlockSize")) "kvBlockSize"
      "KV exact routing requires a positive engine-matched block/page size." ++
    issueIf (exact && !isUndefined (args.get "kvWarmupSec") &&
        !isNonNegativeInteger (args.get "kvWarmupSec")) "kvWarmupSec"
      "KV warmup must be a non-negative integer." ++
    issueIf incompatible "kvHashAlgo"
      ("Hash algorithm " ++ hash.toText ++ " is incompatible with " ++ engine.toText ++ ".") ++
    issueIf (!isUndefined bootstrap && !isPortOrZero bootstrap) "pdBootstrapPort"
      "P/D bootstrap port must be 0 or a valid TCP port." ++
    issueIf (!(bootstrap.orElse (.number 0)).strictEq (.number 0) &&
        !(engine.strictEq (.string "sglang") && topology = .pd)) "pdBootstrapPort"
      "P/D bootstrap port is valid only for SGLang P/D."

def validateZmq (args : JsObject) (exactMode : JsValue) (engine : JsValue) (topology : AITopology) :
    List ValidationIssue :=
  let exactEvents := usesExactEventRouting exactMode topology
  let usesZmq := exactEvents && (engine.strictEq (.string "vllm") || engine.strictEq (.string "sglang"))
  let port := args.get "kvZmqPort"
  let rankCount := (args.get "kvDpRankCount").orElse (.number 1)
  let zmqPort := port.orElse (.number 5557)
  issueIf (usesZmq && !isUndefined port && !isPort port) "kvZmqPort"
    "KV ZMQ port must be between 1 and 65535." ++
  (if !(engine.strictEq (.string "sglang") && exactEvents) then []
   else if !isPositiveInteger rankCount || exceeds rankCount 8 then
     [⟨"kvDpRankCount", "KV DP rank count must be between 1 and 8."⟩]
   else issueIf (isPort zmqPort &&
       zmqPort.toNumber.whole + rankCount.toNumber.whole - 1 > 65535) "kvZmqPort"
     "KV ZMQ rank fan-out must not exceed port 65535.")

def validateEngine (args : JsObject) (exactMode : JsValue) (engine : JsValue) :
    List ValidationIssue :=
  let otherThan (field : String) (n : JsNumber) :=
    !isUndefined (args.get field) && !oneOf [0, n] (args.get field)
  (if !engine.strictEq (.string "trtllm") then []
   else issueIf (otherThan "kvZmqPort" 5557) "kvZmqPort"
     "TensorRT-LLM events use endpoint serving ports, not ZMQ.") ++
  (if !engine.strictEq (.string "llamacpp") then []
   else
     issueIf (!exactMode.strictEq (.number 0)) "kvExactMode" "llama.cpp has no KV event plane." ++
     issueIf (args.get "kvHashAlgo").truthy "kvHashAlgo" "llama.cpp has no block-hash contract." ++
     issueIf (otherThan "kvZmqPort" 5557) "kvZmqPort" "llama.cpp has no KV event transport." ++
     issueIf (otherThan "kvBlockSize" 16) "kvBlockSize" "llama.cpp has no gateway block table.")

def kvExactApiModes : List String :=
  ["completions", "chat", "both"]

def validateProfile (args : JsObject) (exactMode : JsValue) : List ValidationIssue :=
  let apiMode := args.get "kvExactApiMode"
  issueIf (hasValue (args.get "kvModelProfile") && exactMode.strictEq (.number 0)) "kvModelProfile"
    "A model profile binds only to a KV-exact rule." ++
  (if !hasValue apiMode then []
   else
     issueIf (exactMode.strictEq (.number 0)) "kvExactApiMode"
       "An API surface declaration is meaningless without KV exact routing." ++
     issueIf (!kvExactApiModes.any fun mode => apiMode.strictEq (.string mode)) "kvExactApiMode"
       "API surface must be completions, chat, or both.")

def validateAIConfiguration (configuration : ServiceConfiguration) : Option (List ValidationIssue) := do
  let args := configuration.serviceArguments
  let engine := resolveAIEngine <| args.get "kvEngineType"
  let topology := resolveAITopology args
  let exactMode := (args.get "kvExactMode").orElse (.number 0)
  if !(args.get "mode").strictEq (.number 4) then
    return issueIf (aiOnlyFields.any <| isActive args) "mode"
      "AI Gateway routing requires full-proxy mode."
  let kv ← validateKv args exactMode engine topology
  return validateExactMode exactMode engine topology ++ validateChwbl args ++
    validateTimes args topology ++ kv ++ validateZmq args exactMode engine topology ++
    validateEngine args exactMode engine ++ validateProfile args exactMode ++
    validateAdmissionFields args topology ++
    validateEndpointTopology engine topology (configuration.endpoints.getD [])

end Validate

section Serialize

-- `if (c) delete args[field]`, of each field.
def deleteIf (c : Bool) (fields : List String) (args : JsObject) : JsObject :=
  if c then args.delete fields else args

def serializeAdmissionFields (args : JsObject) (topology : AITopology) : JsObject :=
  if !isAIService args then args.delete admissionFields
  else
    let result := args.delete <| admissionFields.filter fun field => isFcBlank (args.get field)
    deleteIf (topology ≠ .pd) fcPdOnlyFields result

def serializeStrictProfileFields (args : JsObject) : JsObject :=
  let result := deleteIf (!hasValue (args.get "kvModelProfile")) ["kvModelProfile"] args
  let result := deleteIf (!hasValue (result.get "kvExactApiMode")) ["kvExactApiMode"] result
  let exactMode := (result.get "kvExactMode").orElse (.number 0)
  deleteIf (exactMode.strictEq (.number 0) || isUndefined (result.get "kvModelProfile"))
    ["kvModelProfile", "kvExactApiMode"] result

def stripEndpointAI (endpoint : JsObject) : JsObject :=
  endpoint.delete ["ep_role", "nixl_port"]

-- A JWT profile travels with the mode only.
def serializeCredentials (args : JsObject) : JsObject :=
  let args := deleteIf (!(args.get "api_key_auth").truthy) ["api_key_auth"] args
  deleteIf (!requiresJwtProfile (args.get "api_key_auth") || !(args.get "jwt_auth_profile").truthy)
    ["jwt_auth_profile"] args

-- A cleared field is absent, and the ring tuning is gone off the CHWBL selectors.
def serializeHash (args : JsObject) : JsObject :=
  let args := deleteIf (!(args.get "kvHashAlgo").truthy) ["kvHashAlgo"] args
  let args := deleteIf (!hasValue (args.get "chwbl_prefix_hash_level")) ["chwbl_prefix_hash_level"] args
  let args := deleteIf (!hasValue (args.get "chwbl_prefix_hash_flags")) ["chwbl_prefix_hash_flags"] args
  if !isChwblSelector (args.get "sel") then args.delete chwblTuningFields
  else args.delete <| chwblTuningFields.filter fun field => !hasValue (args.get field)

def serializeTopology (engine : JsValue) (topology : AITopology) (args : JsObject) : JsObject :=
  match topology with
  | .plain      => args.delete <| kvFields ++ ["pd_disagg_mode"] ++ pdTuningFields ++ ["pdBootstrapPort"]
  | .singleRole => args.delete <| ["pd_disagg_mode"] ++ pdTuningFields ++ ["pdBootstrapPort"]
  | .pd         =>
    let args := deleteIf (!(args.get "kvExactMode").strictEq (.number 1)) kvFields args
    deleteIf (!engine.strictEq (.string "sglang")) ["pdBootstrapPort"] args

def serializeEndpoint (engine : JsValue) (topology : AITopology) (endpoint : JsObject) : JsObject :=
  match topology with
  | .plain | .singleRole => stripEndpointAI endpoint
  | .pd => deleteIf (!engine.strictEq (.string "vllm")) ["nixl_port"] endpoint

def serializeEngine (engine : JsValue) (topology : AITopology) (args : JsObject) : JsObject :=
  let usesSGLangRankFanOut := engine.strictEq (.string "sglang") &&
    usesExactEventRouting (args.get "kvExactMode") topology
  let args := deleteIf (!usesSGLangRankFanOut) ["kvDpRankCount"] args
  let args := deleteIf (engine.strictEq (.string "trtllm") || engine.strictEq (.string "llamacpp"))
    ["kvZmqPort"] args
  deleteIf (engine.strictEq (.string "llamacpp")) kvFields args

def serializeAIConfiguration (configuration : ServiceConfiguration) : Option ServiceConfiguration := do
  let engine := resolveAIEngine <| configuration.serviceArguments.get "kvEngineType"
  let topology := resolveAITopology configuration.serviceArguments
  let args ← serializeBackendTls <| configuration.serviceArguments.delete readOnlyServiceArguments
  let endpoints ← configuration.endpoints
  if !(args.get "mode").strictEq (.number 4) then
    return { configuration with
      serviceArguments := args.delete <| aiOnlyFields ++ ["cb_enable"] ++ chwblTuningFields
      endpoints        := some <| endpoints.map stripEndpointAI
    }
  let args := serializeTopology engine topology <| serializeHash <| serializeCredentials args
  let args := serializeAdmissionFields (serializeEngine engine topology args) topology
  return { configuration with
    -- Last: the profile must never outlive the exact routing that it qualifies.
    serviceArguments := serializeStrictProfileFields args
    endpoints        := some <| endpoints.map <| serializeEndpoint engine topology
  }

end Serialize

end AIGateway
