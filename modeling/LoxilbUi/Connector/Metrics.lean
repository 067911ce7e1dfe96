import LoxilbUi.Api.Capabilities
import LoxilbUi.Observability.FlatSums
import LoxilbUi.Observability.Parser

-- connector/instance/metrics.ts: the older reading of an exposition into one sum for each name, and the flat
-- metrics of the cards under the names of either flavor.

namespace Metrics

open Capabilities Observability Parser Pattern

def isNameStart (c : Char) : Bool :=
  c.isAlpha || c = '_' || c = ':'

def isNameChar (c : Char) : Bool :=
  c.isAlphanum || c = '_' || c = ':'

-- `[+-]?(?:\d+\.?\d*|\.\d+)(?:[eE][+-]?\d+)?|[+-]?Inf|NaN`
def valuePattern : Pattern :=
  alt decimal <| alt (seq sign <| Pattern.text 'I' ['n', 'f']) (Pattern.text 'N' ['a', 'N'])

def namePattern : Pattern :=
  seq (one isNameStart) (many isNameChar)

def labelsPattern : Pattern :=
  seq (char '\x7b') <| seq (many (· ≠ '\x7d')) (char '\x7d')

def linePattern : Pattern :=
  seq (group 1 namePattern) <| seq (opt <| group 2 labelsPattern) <|
    seq (plus JsString.isBlank) (group 3 valuePattern)

def addLine (values : Dict Flat) (line : String) : Dict Flat :=
  if line = "" || JsString.startsWith line "#" then values
  else match matchStart linePattern line.toList with
    | none   => values
    | some m => accumulate values (.ofList <| (m.get? 1).getD []) (numberOf <| (m.get? 3).getD [])

def parsePrometheusText (text : String) : Dict Flat :=
  (JsString.split text '\n').foldl addLine .empty

def gatewayAliases : List (String × String) := [
  ("loxilb_active_conntrack_entries", "active_conntrack_count"),
  ("loxilb_active_flow_count_tcp", "active_flow_count_tcp"),
  ("loxilb_active_flow_count_udp", "active_flow_count_udp"),
  ("loxilb_active_flow_count_sctp", "active_flow_count_sctp"),
  ("loxilb_new_flows", "new_flow_count"),
  ("loxilb_lb_rules", "lb_rule_count"),
  ("loxilb_healthy_endpoints", "healthy_endpoints_count"),
  ("loxilb_unhealthy_endpoints", "unhealthy_endpoints_count"),
  ("loxilb_system_cpu_utilization_percent", "system_cpu_utilization"),
  ("loxilb_system_memory_utilization_percent", "system_memory_utilization"),
  ("loxilb_system_disk_utilization_percent", "system_disk_utilization"),
  ("loxilb_processed_bytes_total", "processed_bytes_total"),
  ("loxilb_processed_packets_total", "processed_packets_total"),
  ("loxilb_errors_total", "total_errors")]

def loxilbAliases : List (String × String) := [
  ("loxilb_active_conntrack_entries", "active_conntrack_count"),
  ("loxilb_active_flow_count_tcp", "active_flow_count_tcp"),
  ("loxilb_active_flow_count_udp", "active_flow_count_udp"),
  ("loxilb_active_flow_count_sctp", "active_flow_count_sctp"),
  ("loxilb_new_flows", "new_flow_count"),
  ("loxilb_lb_rules", "lb_rule_count"),
  ("loxilb_healthy_endpoints", "healthy_host_count"),
  ("loxilb_unhealthy_endpoints", "unhealthy_host_count"),
  ("loxilb_processed_bytes_total", "processed_bytes"),
  ("loxilb_processed_packets_total", "processed_packets"),
  ("loxilb_errors_total", "total_errors")]

def aliasesByFlavor : InstanceFlavor → List (String × String)
  | .inferenceGateway => gatewayAliases
  | .loxilb           => loxilbAliases

-- No name of the tables is one that every object inherits.
def normalizeName (metrics : Dict Flat) (names : String × String) : Dict Flat :=
  match PlainObject.read metrics names.1, PlainObject.read metrics names.2 with
  | .absent, .own value => PlainObject.assign metrics names.1 value
  | _, _                => metrics

def normalizeMetricNames (metrics : Dict Flat) (flavor : InstanceFlavor) : Dict Flat :=
  (aliasesByFlavor flavor).foldl normalizeName metrics

structure LiveMetrics where
  timestamp    : ℚ
  critical     : Dict Flat
  important    : Dict Flat
  totalMetrics : Nat
  available    : Bool
  failure      : Option OpResultAdapter.OpResult

def projectLiveMetrics (snapshot : MetricsSnapshot) (flavor : InstanceFlavor) : LiveMetrics :=
  let metrics := normalizeMetricNames (projectFlatSums snapshot) flavor
  {
    timestamp    := snapshot.receivedAtMs
    critical     := metrics
    important    := metrics
    totalMetrics := metrics.size
    available    := metrics.size > 0
    failure      := snapshot.failure
  }

end Metrics
