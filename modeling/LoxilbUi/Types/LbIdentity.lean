import LoxilbUi.Library.JsJson
import LoxilbUi.Library.JsUrl
import LoxilbUi.Types.LoadBalancer

-- types/lb_identity.ts: what tells the rows of a rule list apart, and the address that deletes one. What
-- reads a member that is not of its type throws: `none`.

namespace LBIdentity

open LoadBalancer

-- `(value ?? '').toLowerCase()`, of a text in ASCII.
def lowered : JsValue → Option String
  | .undefined | .null => some ""
  | .string s          => some <| JsString.toLowerCase s
  | _                  => none

def canonicalLBRuleIdentity (configuration : ServiceConfiguration) : Option String := do
  let args := configuration.serviceArguments
  let orBlank (field : String) := (args.get field).orElse (.string "")
  let protocol ← lowered <| args.get "protocol"
  JsValue.stringify <| .array [orBlank "externalIP", orBlank "port", orBlank "portMax",
    .string protocol, orBlank "host", orBlank "path_prefix", orBlank "path_match_mode",
    orBlank "model_name", orBlank "name"]

-- The id that the gateway gives a rule, where it gives one.
def lbRuleRowId (configuration : ServiceConfiguration) : Option String :=
  let key := (canonicalLBRuleIdentity configuration).map ("key:" ++ ·)
  match configuration.serviceArguments.get "id" with
  | .undefined | .null => key
  | .string s          => if JsString.trim s = "" then key else some <| "id:" ++ JsString.trim s
  | _                  => none

-- A member that is left out is undefined.
structure LBDeleteKey where
  externalIP    : JsValue
  port          : JsValue
  portMax       : JsValue
  protocol      : JsValue
  host          : JsValue
  pathPrefix    : JsValue
  pathMatchMode : JsValue
  modelName     : JsValue

-- `Number(value)` of what is not a text or an object.
def numeric : JsValue → JsNumber
  | .number n            => n
  | .null | .bool false  => 0
  | .bool true           => 1
  | _                    => .nan

def portMaxAbove (args : JsObject) : JsValue :=
  let portMax := args.get "portMax"
  if !portMax.strictEq .undefined && (numeric <| args.get "port").lt (numeric portMax) then portMax
  else .undefined

-- `value ? value : undefined`
def unlessEmpty (v : JsValue) : JsValue :=
  if v.truthy then v else .undefined

def buildLBDeleteKey (configuration : ServiceConfiguration) : LBDeleteKey :=
  let args := configuration.serviceArguments
  { externalIP    := args.get "externalIP"
    port          := args.get "port"
    portMax       := portMaxAbove args
    protocol      := args.get "protocol"
    host          := unlessEmpty <| args.get "host"
    pathPrefix    := unlessEmpty <| args.get "path_prefix"
    pathMatchMode := unlessEmpty <| args.get "path_match_mode"
    modelName     := unlessEmpty <| args.get "model_name" }

def segment (v : JsValue) : String :=
  JsUrl.encodeURIComponent v.toText

-- `if (value) query.set(name, value)`
def setIfAny (query : Dict String) (name : String) (v : JsValue) : Dict String :=
  if v.truthy then query.set name v.toText else query

def buildLBDeletePath (key : LBDeleteKey) : String :=
  let hostPrefix := if key.host.truthy then "/hosturl/" ++ segment key.host else ""
  let range := if key.portMax.strictEq .undefined then "" else "/portmax/" ++ segment key.portMax
  let path := "/config/loadbalancer" ++ hostPrefix ++ "/externalipaddress/" ++ segment key.externalIP ++
    "/port/" ++ segment key.port ++ range ++ "/protocol/" ++ segment key.protocol
  -- Only the routes of a host take what qualifies a path.
  let query :=
    if key.host.truthy then
      setIfAny (setIfAny .empty "path_prefix" key.pathPrefix) "path_match_mode" key.pathMatchMode
    else .empty
  let suffix := JsUrl.searchText (setIfAny query "model_name" key.modelName).entries
  if suffix = "" then path else path ++ "?" ++ suffix

end LBIdentity
