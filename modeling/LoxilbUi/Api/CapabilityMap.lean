import LoxilbUi.Api.Capabilities
import LoxilbUi.Library.JsSort
import LoxilbUi.Library.PlainObject
import LoxilbUi.Library.Traversal

-- scripts/gen-capability-map.mjs: what the specification of the gateway declares beyond that of upstream loxilb, and
-- how api/capabilities.ts reads it.

namespace JsValue

-- Whether there is something at `table[key]`.
def declares (table : JsValue) (key : String) : Bool :=
  match table.get key with
  | .undefined => key ∈ PlainObject.members
  | v          => v.truthy

-- Whether there is something at `table?.[key]`.
def declaresIn (table : JsValue) (key : String) : Bool :=
  !table.isNil && table.declares key

-- `Object.keys(table ?? {})`
def keys : JsValue → List String
  | .object ms => ms.map Prod.fst
  | _          => []

-- `list ?? []`
def items : JsValue → List JsValue
  | .array vs => vs
  | _         => []

-- `node?.$ref`, if there is one.
def ref? (node : JsValue) : Option String :=
  match node.get "$ref" with
  | .string r => if r = "" then none else some r
  | _         => none

-- The part of a document that a reference names.
def follow (doc : JsValue) (ref : String) : JsValue :=
  let path := if JsString.startsWith ref "#/" then .ofList <| ref.toList.drop 2 else ref
  doc.look <| JsString.split path '/'

end JsValue

namespace Capabilities

-- A chain of references may go in a circle: what is found in so many steps.
def resolveRef (doc : JsValue) : Nat → JsValue → Option JsValue
  | 0, _        => none
  | n + 1, node => match node.ref? with
    | some r => resolveRef doc n <| doc.follow r
    | none   => some node

-- What stands at one place in both specifications, before its references are resolved and then.
structure Position where
  ctx   : String
  lNode : JsValue
  gNode : JsValue

structure Shared where
  ctx : String
  l   : JsValue
  g   : JsValue

namespace Shared

variable (s : Shared)

def extraValues : List JsValue :=
  match s.l.get "enum", s.g.get "enum" with
  | .array ls, .array gs => gs.filter fun v => !ls.any v.sameValueZero
  | _, _                 => []

def extraProps : List String :=
  JsString.sort <| (s.g.get "properties").keys.filter fun k => !(s.l.get "properties").declares k

def props : List Position :=
  let shared := (s.l.get "properties").keys.filter fun name => (s.g.get "properties").declaresIn name
  shared.map fun name => ⟨s.ctx ++ "." ++ name, (s.l.get "properties").get name, (s.g.get "properties").get name⟩

def element : List Position :=
  if (s.l.get "items").truthy && (s.g.get "items").truthy then [⟨s.ctx ++ "[]", s.l.get "items", s.g.get "items"⟩]
  else []

end Shared

section Generator

variable (loxilb gateway : JsValue)

-- The way of `walk` through the schemas of both.
def schemas : Traversal Position Shared String where
  key p := match p.lNode.ref?, p.gNode.ref? with
    | none, none => none
    | l, g       => some <| l.getD "" ++ "=>" ++ g.getD ""
  enter n p := do
    let l ← resolveRef loxilb n p.lNode
    let g ← resolveRef gateway n p.gNode
    return if l.truthy && g.truthy then some ⟨p.ctx, l, g⟩ else none
  children s := s.props ++ s.element

-- `if (extra.length) map[key] = extra`; nothing is set at `__proto__` that the map would be written with.
def note {β : Type} (map : Dict (List β)) (key : String) (extra : List β) : Dict (List β) :=
  if extra.isEmpty then map else PlainObject.assign map key extra

structure Found where
  fields     : Dict (List String)
  enumValues : Dict (List JsValue)

def record (s : Shared) (found : Found) : Found where
  fields     := note found.fields s.ctx s.extraProps
  enumValues := note found.enumValues s.ctx s.extraValues

def sharedDefs : List Position :=
  let names := JsString.sort <| (loxilb.get "definitions").keys.filter (gateway.get "definitions").declaresIn
  names.map fun d => ⟨d, (loxilb.get "definitions").get d, (gateway.get "definitions").get d⟩

-- The keys of a table of the gateway that are not in that of loxilb.
def gatewayOnly (table : String) : List String :=
  JsString.sort <| (gateway.get table).keys.filter fun key => !(loxilb.get table).declaresIn key

def gatewayOnlyMethods : Dict (List String) :=
  let paths := (gateway.get "paths").keys.filter (loxilb.get "paths").declaresIn
  paths.foldl (fun map p => note map p <| JsString.sort <| ((gateway.get "paths").get p).keys.filter fun m =>
    m ≠ "parameters" && !((loxilb.get "paths").get p).declares m) .empty

def paramName (q : JsValue) : String :=
  (q.get "in").toText ++ ":" ++ (q.get "name").toText

def extraParams (p method : String) : List String :=
  let lNames := (((loxilb.get "paths").get p).get method).get "parameters" |>.items.map paramName
  let params := (((gateway.get "paths").get p).get method).get "parameters" |>.items
  JsString.sort <| (params.filter fun q => !(q.get "in").strictEq (.string "body") && paramName q ∉ lNames).map paramName

def gatewayOnlyParams : Dict (List String) :=
  let operations := (gateway.get "paths").keys.flatMap fun p =>
    ((gateway.get "paths").get p).keys.filterMap fun method =>
      if method ≠ "parameters" && ((loxilb.get "paths").get p).declaresIn method then some (p, method) else none
  operations.foldl (fun map (p, method) =>
    note map (method.toUpper ++ " " ++ p) <| extraParams loxilb gateway p method) .empty

structure CapabilityMap where
  gatewayOnlyPaths       : List String
  gatewayOnlyMethods     : Dict (List String)
  gatewayOnlyParams      : Dict (List String)
  gatewayOnlyFields      : Dict (List String)
  gatewayOnlyEnumValues  : Dict (List JsValue)
  gatewayOnlyDefinitions : List String

-- The map that the script writes, if every chain of references that it follows ends in so many steps.
def capabilityMap (n : Nat) : Option CapabilityMap := do
  let (_, found) ← (schemas loxilb gateway).walkAll record n (sharedDefs loxilb gateway) ([], ⟨.empty, .empty⟩)
  return {
    gatewayOnlyPaths       := gatewayOnly loxilb gateway "paths"
    gatewayOnlyMethods     := gatewayOnlyMethods loxilb gateway
    gatewayOnlyParams      := gatewayOnlyParams loxilb gateway
    gatewayOnlyFields      := found.fields
    gatewayOnlyEnumValues  := found.enumValues
    gatewayOnlyDefinitions := gatewayOnly loxilb gateway "definitions" }

end Generator

section Gates

inductive InstanceFeature
  | ai
  | ipsec
  | sniCerts
  | ipfilter
  | securityrate
  | ipv6
  | trace
  | l7policy

def featurePaths : InstanceFeature → List String
  | .ai           => ["/config/ai"]
  | .ipsec        => ["/config/ipsec"]
  | .sniCerts     => ["/config/cert", "/sni"]
  | .ipfilter     => ["/config/ipfilter"]
  | .securityrate => ["/config/securityrate"]
  | .ipv6         => ["/config/ipv6address"]
  | .trace        => ["/config/trace"]
  | .l7policy     => ["/config/l7policy"]

variable (map : CapabilityMap) (flavor : InstanceFlavor)

def hasFeature (feature : InstanceFeature) : Bool :=
  match flavor with
  | .inferenceGateway => true
  | .loxilb           => !(featurePaths feature).any fun first =>
    map.gatewayOnlyPaths.any fun p => p = first || JsString.startsWith p (first ++ "/")

-- `table[key] ?? []`, unless that is what every object inherits, which is no list.
def listAt {β : Type} (table : Dict (List β)) (key : String) : Option (List β) :=
  match PlainObject.read table key with
  | .own list    => some list
  | .absent      => some []
  | .inherited _ => none

-- The name of a method is written in ASCII.
def hasMethod (method pathTemplate : String) : Option Bool :=
  match flavor with
  | .inferenceGateway => some true
  | .loxilb           => do
    let methods ← listAt map.gatewayOnlyMethods pathTemplate
    return JsString.toLowerCase method ∉ methods

def hasField (context field : String) : Option Bool :=
  match flavor with
  | .inferenceGateway => some true
  | .loxilb           => do
    let fields ← listAt map.gatewayOnlyFields context
    return field ∉ fields

-- The inherited functions whose `length` is 0, like that of an empty list.
def withoutParameters : List String := ["toLocaleString", "toString", "valueOf"]

-- `stripGatewayOnlyFields(flavor, context, obj)`
def stripContext (context : String) (object : JsObject) : Option JsObject :=
  match flavor, PlainObject.read map.gatewayOnlyFields context with
  | .inferenceGateway, _       => some object
  | .loxilb, .own fields       => some <| stripGatewayOnlyFields .loxilb fields object
  | .loxilb, .absent           => some object
  | .loxilb, .inherited member => if member ∈ withoutParameters then some object else none

def allowedEnumValues (context : String) (values : List JsValue) : Option (List JsValue) :=
  match flavor with
  | .inferenceGateway => some values
  | .loxilb           =>
    -- Nothing is asked of what is found there if there is nothing to filter.
    if values.isEmpty then some [] else do
      let gatewayOnly ← listAt map.gatewayOnlyEnumValues context
      return values.filter fun v => !gatewayOnly.any v.sameValueZero

end Gates

end Capabilities
