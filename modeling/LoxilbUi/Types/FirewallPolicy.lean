import LoxilbUi.Common
import LoxilbUi.Library.JsJson
import LoxilbUi.Types.NetworkPrefix

-- types/firewall_policy.ts, on what tells firewall rules apart.

namespace FirewallPolicy

open NetworkPrefix

structure FirewallRule where
  ruleArguments : JsObject
  opts          : JsObject

variable (hostname : String → Option String)

-- `networkPrefixKey(value || other)`
def prefixOr (v : JsValue) (other : String) : Option String :=
  keyOfValue hostname <| if v.truthy then v else .string other

def family (a : JsObject) : String :=
  let source := a.get "sourceIP"
  let key := prefixOr hostname (if source.truthy then source else a.get "destinationIP") "0.0.0.0/0"
  if (key.map fun key => JsString.startsWith key "v6:") = some true then "::/0" else "0.0.0.0/0"

def firewallIdentity (a : JsObject) : String :=
  let prefixOf (field : String) : JsValue :=
    (prefixOr hostname (a.get field) <| family hostname a).elim .undefined .string
  let orZero (field : String) := (a.get field).orElse (.number 0)
  (JsValue.stringify <| .array [(a.get "portName").orElse (.string ""), prefixOf "sourceIP",
    orZero "minSourcePort", orZero "maxSourcePort", prefixOf "destinationIP", orZero "minDestinationPort",
    orZero "maxDestinationPort", orZero "protocol", orZero "preference"]).getD ""

def firewallRowId (rule : FirewallRule) : Nat :=
  Common.getStableHash <| firewallIdentity hostname rule.ruleArguments

end FirewallPolicy
