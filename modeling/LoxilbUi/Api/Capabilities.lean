import LoxilbUi.Library.JsValue

-- api/capabilities.ts and the generated capability map, on the members of a rule that only the gateway
-- declares.

namespace Capabilities

inductive InstanceFlavor
  | loxilb
  | inferenceGateway
  deriving DecidableEq

-- The context `LoadbalanceEntry`.
def gatewayOnlyEntryFields : List String :=
  ["hw_bytes", "hw_pkts", "offload_state", "secondaryVIPs"]

-- The context `LoadbalanceEntry.serviceArguments`.
def gatewayOnlyArguments : List String :=
  ["adminStateUp", "ai_default_max_tokens", "ai_default_reservation", "ai_objective_strict",
    "alpn_protocols", "annotations", "api_key_auth", "backend_ca_cert_id",
    "backend_client_cert_id", "backend_keepalive_interval_sec", "backend_protocol",
    "backend_tls_effective", "backend_tls_server_name", "cb_enable", "chwbl_enable_cache_salt",
    "chwbl_mean_load_factor", "chwbl_prefix_hash_flags", "chwbl_prefix_hash_level",
    "chwbl_replication", "connectionLimit", "eppEndpoint", "eppFailureMode", "eppPlaintext",
    "eppTimeoutMs", "fc_adaptive", "fc_band_min_share_pct", "fc_band_queue_pct",
    "fc_band_wait_ms", "fc_band_weights", "fc_critical_reserve_pct", "fc_decode_max_inflight",
    "fc_effective", "fc_ep_max_inflight", "fc_expose_headers", "fc_llmd_headers",
    "fc_max_outstanding", "fc_max_queue_depth", "fc_max_queue_wait_ms", "fc_mode",
    "fc_prefill_max_inflight", "fc_shed_queue", "fc_telemetry_stale_ms",
    "fc_tenant_max_share_pct", "fc_tenant_wake", "fc_ttft_target_ms", "fc_wake_policy",
    "fc_warmup_ms", "half_close_effective", "half_close_mode", "hsts_include_subdomains",
    "hsts_max_age", "hsts_preload", "id", "jwt_auth_profile", "kvBlockSize", "kvDpRankCount",
    "kvEngineType", "kvExactApiMode", "kvExactMode", "kvHashAlgo", "kvModelProfile",
    "kvWarmupSec", "kvZmqPort", "max_stream_duration_sec", "mcp_protocol_version", "model_name",
    "mtls_backend", "mtls_frontend", "path_match_mode", "path_prefix", "pdBootstrapPort",
    "pd_balance_abs_threshold", "pd_cache_aware_mode", "pd_cache_threshold", "pd_disagg_mode",
    "pd_prefill_timeout_sec", "pd_session_ttl_sec", "projectId", "session_header_name",
    "sockMapMode", "sse_mode", "timeoutMemberConnect", "timeoutMemberData", "timeoutTcpInspect",
    "tls_ciphers", "tls_versions", "trace_type", "vip_qos_policy_id"]

-- The context `LoadbalanceEntry.endpoints[]`.
def gatewayOnlyEndpointFields : List String :=
  ["backup", "domainName", "ep_role", "expectedCodes", "httpMethod", "httpVersion",
    "monitorAddress", "nixl_port", "subnetId", "urlPath"]

def stripGatewayOnlyFields (flavor : InstanceFlavor) (gatewayOnly : List String) (object : JsObject) :
    JsObject :=
  match flavor with
  | .inferenceGateway => object
  | .loxilb           => object.delete gatewayOnly

end Capabilities
