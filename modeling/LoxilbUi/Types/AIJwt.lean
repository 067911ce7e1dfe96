import LoxilbUi.Library.JsNumber
import LoxilbUi.Library.JsString

-- types/ai_jwt.ts: the profiles by which tokens are checked, and what the form makes of a draft. A
-- member that is absent or null is `none`.

namespace AIJwt

structure JWTAuthProfileEntry where
  name                     : Option String
  issuer                   : Option String
  jwksUrl                  : Option String
  audiences                : Option (List String)
  algs                     : Option (List String)
  leewaySec                : Option JsNumber
  refreshSec               : Option JsNumber
  tenantClaim              : Option String
  userClaim                : Option String
  modelsClaim              : Option String
  rolesClaim               : Option String
  modelRolePrefix          : Option String
  usernameClaim            : Option String
  modelAuthz               : Option String
  defaultTenant            : Option String
  forwardIdentity          : Option Bool
  authorizationPassthrough : Option Bool
  priorityClass            : Option String

structure JwtProfileDefaults where
  algs            : List String
  leewaySec       : JsNumber
  refreshSec      : JsNumber
  tenantClaim     : String
  userClaim       : String
  rolesClaim      : String
  modelRolePrefix : String
  usernameClaim   : String
  modelAuthz      : String

-- What the gateway applies where the member is absent.
def jwtProfileDefaults : JwtProfileDefaults where
  algs            := ["RS256", "ES256"]
  leewaySec       := 30
  refreshSec      := 3600
  tenantClaim     := "tenant_id"
  userClaim       := "sub"
  rolesClaim      := "realm_access.roles"
  modelRolePrefix := "model:"
  usernameClaim   := "preferred_username"
  modelAuthz      := "claims-required"

section Normalize

-- A member of `OPTIONAL_STRING_FIELDS`.
def optionalString (v : Option String) : Option String :=
  v.bind fun v => if JsString.trim v = "" then none else JsString.trim v

-- `Number.isFinite(v)`
def isFinite : JsNumber → Bool
  | .finite _ => true
  | _         => false

-- A member of `OPTIONAL_NUMBER_FIELDS`. Of finite numbers, `v <= 0` is the negation of `0 < v`.
def optionalNumber (v : Option JsNumber) : Option JsNumber :=
  v.bind fun v => if !isFinite v || !JsNumber.lt 0 v then none else v

-- `audiences` and `default_tenant` are left as they are: there an empty value is a setting.
def normalizeJWTAuthProfile (draft : JWTAuthProfileEntry) : JWTAuthProfileEntry :=
  { draft with
    name            := JsString.trim <| draft.name.getD ""
    issuer          := JsString.trim <| draft.issuer.getD ""
    jwksUrl         := optionalString draft.jwksUrl
    tenantClaim     := optionalString draft.tenantClaim
    userClaim       := optionalString draft.userClaim
    modelsClaim     := optionalString draft.modelsClaim
    rolesClaim      := optionalString draft.rolesClaim
    modelRolePrefix := optionalString draft.modelRolePrefix
    usernameClaim   := optionalString draft.usernameClaim
    leewaySec       := optionalNumber draft.leewaySec
    refreshSec      := optionalNumber draft.refreshSec
    algs            := if draft.algs = some [] then none else draft.algs }

end Normalize

end AIJwt
