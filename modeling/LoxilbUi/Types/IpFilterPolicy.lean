import LoxilbUi.Types.AI
import LoxilbUi.Types.NetworkPrefix

-- types/ipfilter_policy.ts: which IP filters may be sent and read back, and when one is in place.

namespace IpFilter

open NetworkPrefix

variable (hostname : String → Option String)

-- `typeof value === 'string' ? value.trim() : ''`
def trimmed : JsValue → String
  | .string s => JsString.trim s
  | _         => ""

-- `Number.isInteger(value) && value >= min && value <= max`
def isIntegerIn (min max : JsNumber) : JsValue → Bool
  | .number n => n.isInteger && !n.lt min && !max.lt n
  | _         => false

def validIPFilterConfig (data : JsValue) : Bool :=
  let zone := data.get "zone"
  let priority := data.get "priority"
  let paired (filterType action : String) :=
    (data.get "filterType").strictEq (.string filterType) && (data.get "action").strictEq (.string action)
  (networkPrefixKey hostname <| trimmed <| data.get "cidr").isSome &&
    (zone.strictEq .undefined || zone.strictEq (.number 0)) &&
    (priority.strictEq .undefined || isIntegerIn 0 65535 priority) &&
    (paired "whitelist" "allow" || paired "blacklist" "drop")

-- `typeof value === 'number' && Number.isSafeInteger(value) && value >= 0`
def isCounter : JsValue → Bool
  | .number n => AI.isSafeInteger n && !n.lt 0
  | _         => false

def validRow (row : JsValue) : Bool :=
  row.truthy && validIPFilterConfig hostname row && !(row.get "priority").strictEq .undefined &&
    ["packets", "bytes"].all fun field => (row.get field).strictEq .undefined || isCounter (row.get field)

-- An empty list is read as null.
def parseIPFilterRows : JsValue → Except String (List JsValue)
  | .null       => .ok []
  | .array rows => if rows.all (validRow hostname) then .ok rows else .error "Invalid IP-filter readback."
  | _           => .error "Invalid IP-filter readback."

def sameIdentity (a b : JsValue) : Bool :=
  let zone (entry : JsValue) := (entry.get "zone").orElse (.number 0)
  (a.get "filterType").strictEq (b.get "filterType") && (zone a).strictEq (zone b) &&
    keyOfValue hostname (a.get "cidr") = keyOfValue hostname (b.get "cidr")

def ipFilterApplied (want : JsValue) (rows : List JsValue) : Bool :=
  rows.any fun row =>
    sameIdentity hostname row want && (row.get "action").strictEq (want.get "action") &&
      ((row.get "priority").orElse (.number 0)).strictEq ((want.get "priority").orElse (.number 100))

end IpFilter
