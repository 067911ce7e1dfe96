import LoxilbUi.Library.JsJson
import LoxilbUi.Types.LbFullproxyReplace

-- pages/traffic/LBRulePage.tsx: what the update dialog makes of an edit, up to the body of the upsert
-- that upstream loxilb is sent.

namespace LBRulePage

open LoadBalancer LBFullproxyReplace

inductive LBEditStrategy
  | create
  | replaceFullproxy
  | blockFullproxy
  | mergePatch
  | reconcile
  deriving DecidableEq

def selectLBEditStrategy (keyChanged hasCompositeKey : Bool) (mode : JsValue)
    (canMergePatch : Bool) : LBEditStrategy :=
  if keyChanged || !hasCompositeKey then .create
  else if mode.strictEq (.number 4) then
    if canMergePatch then .replaceFullproxy else .blockFullproxy
  else if canMergePatch then .mergePatch else .reconcile

section Patch

def immutableServiceArguments : List String :=
  ["externalIP", "port", "protocol", "mode", "security", "egress", "oper", "managed"]

def isZero : JsValue → Bool
  | .undefined | .null => true
  | v => v.strictEq (.number 0) || v.strictEq (.string "") || v.strictEq (.bool false)

def lbFormDefaults : List (String × JsValue) := [
  ("probeTimeout", .number 1800),
  ("path_match_mode", .string "disabled"),
  ("backend_protocol", .string "http1"),
  ("chwbl_prefix_hash_level", .number 1)
]

def isFormDefault (key : String) (value : JsValue) : Bool :=
  value.strictEq ((lbFormDefaults.lookup key).getD .undefined) ||
    match value with
    -- The dropdown sets its default when it is mounted.
    | .object mtls => key = "mtls_frontend" &&
      ((JsValue.object mtls).get "client_cert_mode").strictEq (.string "disabled") &&
        mtls.all fun (field, nested) => field = "client_cert_mode" || isZero nested
    | _ => false

-- Whether the edit changed a member of the rule as it was read.
def isEdited (readBack : JsObject) (key : String) (value : JsValue) : Bool :=
  key ∉ immutableServiceArguments &&
    !((readBack.get key).strictEq .undefined && (isZero value || isFormDefault key value)) &&
      value.stringify ≠ (readBack.get key).stringify

def lbServiceArgumentsPatch (edited readBack : JsObject) : JsObject where
  entries := edited.entries.filter fun (key, value) => isEdited readBack key value
  nodup   := edited.nodup.sublist <| List.filter_sublist.map _

end Patch

def stripReadFields (endpoints : Option (List JsObject)) : List JsObject :=
  (endpoints.getD []).map fun endpoint => endpoint.delete ["state", "counter"]

def listValue (objects : List JsObject) : JsValue :=
  .array <| objects.map fun object => .object object.entries

-- What the operator changed of the rule that was selected.
structure LBChanges where
  saPatch          : JsObject
  endpointsChanged : Bool
  secondaryChanged : Bool
  allowedChanged   : Bool

def LBChanges.isEmpty (changes : LBChanges) : Bool :=
  changes.saPatch.entries.isEmpty && !changes.endpointsChanged && !changes.secondaryChanged &&
    !changes.allowedChanged

def listChanged (a b : Option (List JsObject)) : Bool :=
  (listValue <| a.getD []).stringify ≠ (listValue <| b.getD []).stringify

def lbChanges (selectedLB serviceConfig : ServiceConfiguration) : LBChanges where
  saPatch          := lbServiceArgumentsPatch serviceConfig.serviceArguments selectedLB.serviceArguments
  endpointsChanged :=
    (serviceConfig.endpoints.map listValue).bind JsValue.stringify ≠
      (listValue <| stripReadFields selectedLB.endpoints).stringify
  secondaryChanged := listChanged serviceConfig.secondaryIPs selectedLB.secondaryIPs
  allowedChanged   := listChanged serviceConfig.allowedSources selectedLB.allowedSources

def editStrategy (canMergePatch : Bool) (sa osa : JsObject) : LBEditStrategy :=
  let changed (field : String) := !(sa.get field).strictEq (osa.get field)
  let identityChanged := (osa.get "mode").strictEq (.number 4) && canMergePatch &&
    changedFullproxyIdentity sa osa ≠ []
  selectLBEditStrategy
    (changed "externalIP" || changed "port" || changed "protocol" || identityChanged)
    ((osa.get "externalIP").truthy && !(osa.get "port").isNil && (osa.get "protocol").truthy)
    (osa.get "mode") canMergePatch

-- The tuple that the upsert looks the rule up by.
def sharesTuple (selectedLB lb : ServiceConfiguration) : Bool :=
  let same (field : String) :=
    (lb.serviceArguments.get field).strictEq (selectedLB.serviceArguments.get field)
  same "externalIP" && same "port" && same "protocol"

def upsertOn (base serviceConfig : ServiceConfiguration) (changes : LBChanges) :
    ServiceConfiguration where
  serviceArguments := spread base.serviceArguments changes.saPatch
  endpoints        :=
    if changes.endpointsChanged then serviceConfig.endpoints
    else some <| stripReadFields base.endpoints
  secondaryIPs     := some <|
    (if changes.secondaryChanged then serviceConfig.secondaryIPs else base.secondaryIPs).getD []
  allowedSources   := some <|
    (if changes.allowedChanged then serviceConfig.allowedSources else base.allowedSources).getD []

-- Whether an edit goes out as a 'reconcile' upsert. The dialog does not open on a row without a list of
-- endpoints, and an edit that changes nothing is not sent.
def isReconcileEdit (canMergePatch : Bool) (selectedLB serviceConfig : ServiceConfiguration) : Bool :=
  selectedLB.endpoints.isSome && editStrategy canMergePatch serviceConfig.serviceArguments
    selectedLB.serviceArguments = .reconcile && !(lbChanges selectedLB serviceConfig).isEmpty

-- The body of the upsert, on the list as it was just read.
def reconcileUpsert (canMergePatch : Bool) (freshAll : List ServiceConfiguration)
    (selectedLB serviceConfig : ServiceConfiguration) : Option ServiceConfiguration :=
  if !isReconcileEdit canMergePatch selectedLB serviceConfig then none
  else
    let fresh := freshAll.find? <| sharesTuple selectedLB
    some <| upsertOn (fresh.getD selectedLB) serviceConfig (lbChanges selectedLB serviceConfig)

end LBRulePage
