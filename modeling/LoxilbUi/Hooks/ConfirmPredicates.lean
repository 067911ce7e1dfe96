import LoxilbUi.Hooks.LbRuleApplied
import LoxilbUi.Library.Dict
import LoxilbUi.Library.Json
import LoxilbUi.Types.AI
import LoxilbUi.Types.AIJwt
import LoxilbUi.Types.LbIdentity

-- hooks/query/confirmPredicates.ts: whether a write has landed, read off what is served. What is
-- served may leave a member out or hold a null: both are `none`.

namespace ConfirmPredicates

open AI AIJwt LoadBalancer LBIdentity

-- Every rule that was deleted is gone. Both sides were read from the same list.
def lbRulesGone (deleted rows : List ServiceConfiguration) : Option Bool := do
  let present ← rows.mapM canonicalLBRuleIdentity
  deleted.allM fun d => return decide <| (← canonicalLBRuleIdentity d) ∉ present

section Quotas

-- A count as the quota endpoints mean it: absent, null and 0 are one value.
def sameCount (asked served : Option JsNumber) : Bool :=
  (asked.getD 0).strictEq (served.getD 0)

-- `(row?.model ?? '').trim()`, of a row that may be null.
def nameOf (row : Option ModelRateLimit) : String :=
  (row.map ModelRateLimit.name).getD ""

-- `row?.tokens_per_min ?? 0`
def tpmOf (row : Option ModelRateLimit) : JsNumber :=
  (row.bind ModelRateLimit.tokensPerMin).getD 0

-- The body of the loop of `modelQuotas`.
def addQuota (keepRemovals : Bool) (out : Dict JsNumber) (row : Option ModelRateLimit) :
    Dict JsNumber :=
  if nameOf row = "" then out
  else if JsNumber.lt 0 (tpmOf row) then out.set (nameOf row) (tpmOf row)
  else if keepRemovals then out.set (nameOf row) 0
  else out.without [nameOf row]

-- Model quotas as a map. A row without a positive quota is no quota, unless a removal is kept as 0.
def modelQuotas (rows : List (Option ModelRateLimit)) (keepRemovals : Bool) : Dict JsNumber :=
  rows.foldl (addQuota keepRemovals) .empty

structure ServedTenantRateLimit extends PriorityAsked where
  tenantId     : Option String
  rps          : Option JsNumber
  tokensPerMin : Option JsNumber
  burstPct     : Option JsNumber
  modelLimits  : Option (List (Option ModelRateLimit))

structure ServedUserRateLimit where
  tenantId     : Option String
  userId       : Option String
  rps          : Option JsNumber
  burstSize    : Option JsNumber
  tokensPerMin : Option JsNumber
  modelLimits  : Option (List (Option ModelRateLimit))

-- The fields of a request's priority, of which only those that `asked` names are compared.
def samePriorityFields (asked served : PriorityAsked) : Bool :=
  (asked.priorityClass.isNone ||
    asked.priorityClass.join.getD "" = served.priorityClass.join.getD "") &&
  (asked.defaultObjective.isNone ||
    asked.defaultObjective.join.getD "" = served.defaultObjective.join.getD "") &&
  (asked.allowedObjectives.isNone ||
    JsString.joinComma (asked.allowedObjectives.join.getD []) =
      JsString.joinComma (served.allowedObjectives.join.getD []))

def rowsOf (limits : Option (List ModelRateLimit)) : List (Option ModelRateLimit) :=
  (limits.getD []).map some

-- A tenant upsert landed. `none` is the 404 of the tenant's own read.
def tenantRateLimitApplied (submitted : TenantRateLimitMod) (served : Option ServedTenantRateLimit) :
    Bool :=
  let want := normalizeTenantRateLimit submitted
  served.any fun served =>
    served.tenantId = some want.tenantId && sameCount want.rps served.rps &&
    sameCount want.tokensPerMin served.tokensPerMin && sameCount want.burstPct served.burstPct &&
    samePriorityFields submitted.toPriorityAsked served.toPriorityAsked &&
    let servedQuota := modelQuotas (served.modelLimits.getD []) false
    (modelQuotas (rowsOf want.modelLimits) true).entries.all fun (model, asked) =>
      ((servedQuota.get? model).getD 0).strictEq asked

-- A user upsert landed. `none` is the 404 of the user's own read.
def userRateLimitApplied (submitted : UserRateLimitMod) (served : Option ServedUserRateLimit) :
    Bool :=
  let want := normalizeUserRateLimit submitted
  served.any fun served =>
    served.userId = want.userId && served.tenantId = want.tenantId &&
    sameCount want.rps served.rps && sameCount want.burstSize served.burstSize &&
    sameCount want.tokensPerMin served.tokensPerMin &&
    let asked := modelQuotas (rowsOf want.modelLimits) false
    let got := modelQuotas (served.modelLimits.getD []) false
    asked.size = got.size && asked.entries.all fun (model, tpm) =>
      (got.get? model).any (·.strictEq tpm)

end Quotas

section ApiKey

-- A row of the list of keys.
structure ApiKeyRow extends PriorityAsked where
  keyId         : Option String
  allowedModels : Option (List String)
  enabled       : Option Bool
  rateLimitRps  : Option JsNumber
  burstSize     : Option JsNumber
  tokensPerMin  : Option JsNumber

def numericMatches (asked served : Option JsNumber) : Bool :=
  asked.all (·.strictEq <| served.getD 0)

def priorityOf (patch : ApiKeyPatch) : PriorityAsked where
  priorityClass     := patch.priorityClass.map some
  defaultObjective  := patch.defaultObjective.map some
  allowedObjectives := patch.allowedObjectives.map some

-- A patch landed: what it names now reads back that way.
def apiKeyPatchApplied (keyId : String) (patch : ApiKeyPatch) (rows : List ApiKeyRow) : Bool :=
  (rows.find? fun r => r.keyId = some keyId).any fun row =>
    numericMatches patch.rateLimitRps row.rateLimitRps &&
    numericMatches patch.burstSize row.burstSize &&
    numericMatches patch.tokensPerMin row.tokensPerMin &&
    (patch.enabled.all fun enabled => enabled = decide (row.enabled ≠ some false)) &&
    (patch.allowedModels.all fun models =>
      JsString.joinComma models = JsString.joinComma (row.allowedModels.getD [])) &&
    samePriorityFields (priorityOf patch) row.toPriorityAsked

end ApiKey

section Jwt

-- `JSON.stringify` of a list.
def listText (items : List JsValue) : String :=
  Json.text <| .array <| JsValue.jsonItems items

def sortedList (list : Option (List String)) : String :=
  listText <| (LBRuleApplied.sortedTexts <| list.getD []).map .string

def effectiveText (value : Option String) (fallback : String) : String :=
  if JsString.trim (value.getD "") = "" then fallback else JsString.trim <| value.getD ""

def effectiveSeconds (value : Option JsNumber) (fallback : JsNumber) : JsNumber :=
  (value.filter (JsNumber.lt 0 ·)).getD fallback

def effectiveAlgs (algs : Option (List String)) : List String :=
  if algs.getD [] = [] then jwtProfileDefaults.algs else algs.getD []

-- A profile reduced to what the gateway acts on, as one comparable text.
def effectiveJwtProfile (profile : JWTAuthProfileEntry) : String :=
  listText [
    .string <| effectiveText profile.name "",
    .string <| effectiveText profile.issuer "",
    .string <| effectiveText profile.jwksUrl "",
    .string <| sortedList profile.audiences,
    .string <| sortedList <| effectiveAlgs profile.algs,
    .number <| effectiveSeconds profile.leewaySec jwtProfileDefaults.leewaySec,
    .number <| effectiveSeconds profile.refreshSec jwtProfileDefaults.refreshSec,
    .string <| effectiveText profile.tenantClaim jwtProfileDefaults.tenantClaim,
    .string <| effectiveText profile.userClaim jwtProfileDefaults.userClaim,
    .string <| effectiveText profile.modelsClaim "",
    .string <| effectiveText profile.rolesClaim jwtProfileDefaults.rolesClaim,
    .string <| effectiveText profile.modelRolePrefix jwtProfileDefaults.modelRolePrefix,
    .string <| effectiveText profile.usernameClaim jwtProfileDefaults.usernameClaim,
    .string <| effectiveText profile.modelAuthz jwtProfileDefaults.modelAuthz,
    .string <| profile.defaultTenant.getD "",
    .bool <| profile.forwardIdentity = some true,
    .bool <| profile.authorizationPassthrough = some true,
    .string <| profile.priorityClass.getD ""]

-- The profile reads back under its name with the configuration that was sent.
def jwtProfileApplied (submitted : JWTAuthProfileEntry) (rows : List JWTAuthProfileEntry) : Bool :=
  let name := JsString.trim <| submitted.name.getD ""
  (rows.find? fun r => r.name = some name).any fun row =>
    effectiveJwtProfile row = effectiveJwtProfile submitted

end Jwt

end ConfirmPredicates
