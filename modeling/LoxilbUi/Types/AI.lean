import LoxilbUi.Library.JsNumber
import LoxilbUi.Library.JsString

-- types/ai.ts: the bodies of the quota and API key writes, as the forms make and check them. A member
-- that a body leaves out is `none`; where it may be null as well, that is `some none`.

namespace AI

-- `Number.isSafeInteger(n)`
def isSafeInteger : JsNumber → Bool
  | .finite d =>
    0 ≤ d.exponent && !Decimal.lt (.ofInt 9007199254740991) d && !d.lt (.ofInt (-9007199254740991))
  | _         => false

def isNonNegativeSafeInteger (value : Option JsNumber) : Bool :=
  value.any fun n => isSafeInteger n && !n.lt 0

-- `if (c) errors.push(message)`
def errorIf (c : Bool) (message : String) : List String :=
  if c then [message] else []

-- `ITenantModelRateLimit` and `IUserModelRateLimit`.
structure ModelRateLimit where
  model        : Option String
  tokensPerMin : Option JsNumber
  deriving DecidableEq

-- `model?.trim() ?? ''`
def ModelRateLimit.name (limit : ModelRateLimit) : String :=
  JsString.trim <| limit.model.getD ""

structure PriorityAsked where
  priorityClass     : Option (Option String)
  defaultObjective  : Option (Option String)
  allowedObjectives : Option (Option (List String))

structure TenantRateLimitMod extends PriorityAsked where
  tenantId     : String
  rps          : Option JsNumber
  tokensPerMin : Option JsNumber
  burstPct     : Option JsNumber
  modelLimits  : Option (List ModelRateLimit)

section Tenant

-- The rows that take out what was persisted and is not shown any more, each once.
def tombstones (currentModels tombstonedModels : List String) :
    List ModelRateLimit → List ModelRateLimit
  | []                 => []
  | limit :: persisted =>
    let model := limit.name
    if model = "" || model ∈ currentModels || model ∈ tombstonedModels then
      tombstones currentModels tombstonedModels persisted
    else
      { model := model, tokensPerMin := some 0 } ::
        tombstones currentModels (model :: tombstonedModels) persisted

def reconcileTenantModelLimits (current persisted : List ModelRateLimit) : List ModelRateLimit :=
  let currentModels := (current.map ModelRateLimit.name).filter (· ≠ "")
  current ++ tombstones currentModels [] persisted

def trimModel (limit : ModelRateLimit) : ModelRateLimit :=
  { limit with model := limit.model.map JsString.trim }

def normalizeTenantRateLimit (data : TenantRateLimitMod) : TenantRateLimitMod :=
  { data with
    tenantId    := JsString.trim data.tenantId
    modelLimits := if data.modelLimits.getD [] = [] then none
      else data.modelLimits.map (·.map trimModel) }

-- The checks of the model rows from row `index` on, where `seen` names those before it.
def modelLimitErrors (seen : List String) (index : Nat) : List ModelRateLimit → List String
  | []              => []
  | limit :: limits =>
    let model := limit.model.getD ""
    errorIf (model = "") ("Model quota row " ++ (index + 1).repr ++ " requires a model name.") ++
    errorIf (model ≠ "" && model ∈ seen) ("Model quota " ++ model ++ " is duplicated.") ++
    errorIf (!isNonNegativeSafeInteger limit.tokensPerMin) ("Model quota row " ++ (index + 1).repr ++
      " tokens per minute must be a non-negative integer.") ++
    modelLimitErrors (if model = "" || model ∈ seen then seen else model :: seen) (index + 1) limits

def validateTenantRateLimit (data : TenantRateLimitMod) : List String :=
  let normalized := normalizeTenantRateLimit data
  errorIf (normalized.tenantId = "") "Tenant ID is required." ++
  errorIf (normalized.rps.isSome && !isNonNegativeSafeInteger normalized.rps)
    "Tenant RPS must be a non-negative integer." ++
  errorIf (normalized.tokensPerMin.isSome && !isNonNegativeSafeInteger normalized.tokensPerMin)
    "Tenant tokens per minute must be a non-negative integer." ++
  errorIf (normalized.burstPct.any fun burst =>
      !isNonNegativeSafeInteger (some burst) || JsNumber.lt 1000 burst)
    "Tenant burst percentage must be 0 or an integer between 1 and 1000." ++
  modelLimitErrors [] 0 (normalized.modelLimits.getD [])

end Tenant

section ApiKey

structure ApiKeyPatch where
  allowedModels     : Option (List String)
  enabled           : Option Bool
  rateLimitRps      : Option JsNumber
  burstSize         : Option JsNumber
  tokensPerMin      : Option JsNumber
  priorityClass     : Option String
  defaultObjective  : Option String
  allowedObjectives : Option (List String)

def apiKeyPatchIsEmpty (patch : ApiKeyPatch) : Bool :=
  !(patch.allowedModels.isSome || patch.enabled.isSome || patch.rateLimitRps.isSome ||
    patch.burstSize.isSome || patch.tokensPerMin.isSome || patch.priorityClass.isSome ||
    patch.defaultObjective.isSome || patch.allowedObjectives.isSome)

def objectiveErrors (seen : List String) : List String → List String
  | []            => []
  | name :: names =>
    if JsString.trim name = "" then "An objective name cannot be empty." :: objectiveErrors seen names
    else if name ∈ seen then
      ("Allowed objective " ++ name ++ " is duplicated.") :: objectiveErrors seen names
    else objectiveErrors (name :: seen) names

def modelErrors (seen : List String) : List String → List String
  | []              => []
  | model :: models =>
    if JsString.trim model = "" then "A model name cannot be empty." :: modelErrors seen models
    -- The gateway joins the list with commas and splits on them.
    else if JsString.includes model "," then
      "A model name cannot contain a comma." :: modelErrors seen models
    else if model ∈ seen then ("Model " ++ model ++ " is duplicated.") :: modelErrors seen models
    else modelErrors (model :: seen) models

def rateErrors (value : Option JsNumber) (message : String) : List String :=
  errorIf (value.isSome && !isNonNegativeSafeInteger value) message

def validateApiKeyPatch (patch : ApiKeyPatch) : List String :=
  if apiKeyPatchIsEmpty patch then ["Change at least one field before applying."]
  else
    rateErrors patch.rateLimitRps "Requests per second must be a non-negative integer." ++
    rateErrors patch.burstSize "Burst size must be a non-negative integer." ++
    rateErrors patch.tokensPerMin "Tokens per minute must be a non-negative integer." ++
    errorIf (patch.priorityClass.any (· ∉ ["", "standard", "critical", "sheddable"]))
      "Priority class must be critical, standard or sheddable." ++
    errorIf (patch.defaultObjective.any (JsString.includes · ","))
      "The default objective is one name." ++
    (patch.allowedObjectives.elim [] fun names =>
      errorIf (64 < names.length) "At most 64 allowed objectives." ++ objectiveErrors [] names) ++
    (patch.allowedModels.elim [] <| modelErrors [])

end ApiKey

section User

structure UserRateLimitMod where
  tenantId     : Option String
  userId       : Option String
  rps          : Option JsNumber
  burstSize    : Option JsNumber
  tokensPerMin : Option JsNumber
  modelLimits  : Option (List ModelRateLimit)

def normalizeUserRateLimit (data : UserRateLimitMod) : UserRateLimitMod :=
  let models := (data.modelLimits.getD []).map fun m => { m with model := some m.name }
  { data with
    tenantId    := JsString.trim <| data.tenantId.getD ""
    userId      := JsString.trim <| data.userId.getD ""
    modelLimits := models.filter fun m => m.model ≠ some "" }

end User

end AI
