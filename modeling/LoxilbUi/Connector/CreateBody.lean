import LoxilbUi.Connector.LoadBalancer

-- connector/instance/load_balancer.ts: the body of a rule, with what stands at the top of the rule
-- besides the four members of its type.

namespace LoadBalancer

open Capabilities

def configurationFields : List String :=
  ["serviceArguments", "endpoints", "secondaryIPs", "allowedSources"]

structure LoadbalanceEntry extends ServiceConfiguration where
  others : JsObject
  apart  : ∀ k ∈ configurationFields, others.get? k = none

-- A list that is left out is no member.
def listMember (key : String) (items : Option (List JsObject)) : List (String × JsValue) :=
  (items.map fun items => (key, .array <| items.map fun item => .object item.entries)).toList

def LoadbalanceEntry.toValue (entry : LoadbalanceEntry) : JsValue :=
  .object <| ("serviceArguments", .object entry.serviceArguments.entries) ::
    listMember "endpoints" entry.endpoints ++ listMember "secondaryIPs" entry.secondaryIPs ++
    listMember "allowedSources" entry.allowedSources ++ entry.others.entries

theorem cleanObject_keys {object : JsObject} : (cleanObject object).keys ⊆ object.keys :=
  (cleanMembers_keys _).subset

theorem stripGatewayOnlyFields_keys {flavor : InstanceFlavor} {fields : List String} {object : JsObject} :
    (stripGatewayOnlyFields flavor fields object).keys ⊆ object.keys := by
  cases flavor
  case loxilb           => exact List.map_subset _ <| List.filter_subset_self _
  case inferenceGateway => exact List.Subset.refl _

def buildEntry (data : LoadbalanceEntry) (flavor : InstanceFlavor) : Option LoadbalanceEntry := do
  let body ← buildLBCreateBody data.toServiceConfiguration flavor
  return { body with
    others := cleanObject <| stripGatewayOnlyFields flavor gatewayOnlyEntryFields data.others
    apart  := fun k hk => Dict.get?_eq_none_of_keys
      (List.Subset.trans cleanObject_keys stripGatewayOnlyFields_keys) (data.apart k hk)
  }

end LoadBalancer
