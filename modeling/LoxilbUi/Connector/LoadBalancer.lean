import LoxilbUi.Api.Capabilities
import LoxilbUi.Types.AIGateway

-- connector/instance/load_balancer.ts: the body that a rule is sent as.

namespace LoadBalancer

open AIGateway Capabilities

def isNegative : JsValue → Bool
  | .number n => n.lt 0
  | _         => false

mutual

def cleanNegativeNumbers : JsValue → JsValue
  | .array vs  => .array <| cleanItems vs
  | .object ms => .object <| cleanMembers ms
  | v          => v

def cleanItems : List JsValue → List JsValue
  | []      => []
  | v :: vs => cleanNegativeNumbers v :: cleanItems vs

-- A member with a negative number is skipped.
def cleanMembers : List (String × JsValue) → List (String × JsValue)
  | []             => []
  | (key, v) :: ms =>
    if isNegative v then cleanMembers ms else (key, cleanNegativeNumbers v) :: cleanMembers ms

end

theorem cleanMembers_keys (ms : List (String × JsValue)) :
    ((cleanMembers ms).map Prod.fst).Sublist (ms.map Prod.fst) := by
  induction ms
  case nil => simp [cleanMembers]
  case cons m ms hi =>
    simp only [cleanMembers]
    split
    case isTrue  => exact hi.cons _
    case isFalse => exact hi.cons_cons _

def cleanObject (object : JsObject) : JsObject where
  entries := cleanMembers object.entries
  nodup   := object.nodup.sublist <| cleanMembers_keys _

def cleanConfiguration (configuration : ServiceConfiguration) : ServiceConfiguration where
  serviceArguments := cleanObject configuration.serviceArguments
  endpoints        := configuration.endpoints.map (·.map cleanObject)
  secondaryIPs     := configuration.secondaryIPs.map (·.map cleanObject)
  allowedSources   := configuration.allowedSources.map (·.map cleanObject)

def probeFields : List String :=
  ["probetype", "probeport", "probereq", "proberesp", "probeTimeout", "probeRetries"]

-- Whether client-cert verification is off.
def isInertFrontend (frontend : JsValue) : Bool :=
  frontend.truthy && (!(frontend.get "client_cert_mode").truthy ||
    (frontend.get "client_cert_mode").strictEq (.string "disabled"))

-- The probe goes with the monitor, and an inert frontend part is not sent.
def dropInert (args : JsObject) : JsObject :=
  let args := deleteIf (!(args.get "monitor").truthy) probeFields args
  deleteIf (isInertFrontend <| args.get "mtls_frontend") ["mtls_frontend"] args

def serializeLBCreateBody (projected : ServiceConfiguration) : Option ServiceConfiguration := do
  let cleaned := cleanConfiguration (← serializeAIConfiguration projected)
  return { cleaned with serviceArguments := dropInert cleaned.serviceArguments }

-- Of the members that only the gateway declares at the top of a rule, the model has none.
def projectOntoFlavor (body : ServiceConfiguration) (flavor : InstanceFlavor) :
    ServiceConfiguration :=
  match flavor with
  | .inferenceGateway => body
  | .loxilb => { body with
      serviceArguments := stripGatewayOnlyFields flavor gatewayOnlyArguments body.serviceArguments
      endpoints        := body.endpoints.map
        (·.map <| stripGatewayOnlyFields flavor gatewayOnlyEndpointFields)
    }

def buildLBCreateBody (data : ServiceConfiguration) (flavor : InstanceFlavor) :
    Option ServiceConfiguration :=
  serializeLBCreateBody <| projectOntoFlavor data flavor

end LoadBalancer
