import LoxilbUi.Types.AIGateway

-- types/lb_fullproxy_replace.ts, on the identity of a fullproxy rule and on the body of a replace: the
-- rule as the gateway holds it now, with the changes of the operator laid over it.

namespace LBFullproxyReplace

open LoadBalancer AIGateway

def fullproxyIdentityFields : List String :=
  ["externalIP", "port", "portMax", "protocol", "host", "path_prefix", "path_match_mode", "model_name"]

def text : JsValue → String
  | .string s => s
  | _         => ""

-- A member as the gateway keys it; a protocol is written in ASCII.
def identityValue (field : String) (args : JsObject) : String :=
  match field with
  | "port"            => ((args.get "port").orElse (.string "")).toText
  -- A range is one only when it reaches past the port.
  | "portMax"         =>
    match args.get "portMax", args.get "port" with
    | .number portMax, .number port => if port.lt portMax then portMax.toText else ""
    | _, _                          => ""
  | "protocol"        => JsString.toLowerCase <| text <| args.get "protocol"
  -- "disabled" is stored as nothing.
  | "path_match_mode" =>
    if text (args.get "path_match_mode") = "disabled" then "" else text <| args.get "path_match_mode"
  | _                 => text <| args.get field

def changedFullproxyIdentity (edited original : JsObject) : List String :=
  fullproxyIdentityFields.filter fun field =>
    identityValue field edited ≠ identityValue field original

-- A list that the operator left alone is `none`.
structure FullproxyEdit where
  argumentsPatch : JsObject
  endpoints      : Option (List JsObject)
  secondaryIPs   : Option (List JsObject)
  allowedSources : Option (List JsObject)

-- `{...object, ...patch}`
def spread (object patch : JsObject) : JsObject :=
  patch.entries.foldl (fun object (key, v) => object.set key v) object

def buildFullproxyReplaceBody (fresh : ServiceConfiguration) (edit : FullproxyEdit) :
    ServiceConfiguration where
  serviceArguments :=
    spread (fresh.serviceArguments.delete <| ["managed", "id"] ++ readOnlyServiceArguments)
      edit.argumentsPatch
  endpoints        := edit.endpoints <|>
    some ((fresh.endpoints.getD []).map fun endpoint => endpoint.delete ["state", "counter"])
  secondaryIPs     := edit.secondaryIPs <|> some (fresh.secondaryIPs.getD [])
  allowedSources   := edit.allowedSources <|> some (fresh.allowedSources.getD [])

end LBFullproxyReplace
