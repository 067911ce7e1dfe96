import LoxilbUi.Library.JsValue

-- types/load_balancer.ts: a rule as the rule list returns it and as a write sends it. A list is `none`
-- where it is left out or null.

namespace LoadBalancer

structure ServiceConfiguration where
  serviceArguments : JsObject
  endpoints        : Option (List JsObject)
  secondaryIPs     : Option (List JsObject)
  allowedSources   : Option (List JsObject)

-- `BackendTlsIssue` and `AIValidationIssue`.
structure ValidationIssue where
  field   : String
  message : String
  deriving DecidableEq

-- `if (c) issues.push({field, message})`
def issueIf (c : Bool) (field message : String) : List ValidationIssue :=
  if c then [⟨field, message⟩] else []

def jwtAuthPolicies : List String :=
  ["jwt", "apikey-or-jwt"]

def requiresJwtProfile (policy : JsValue) : Bool :=
  jwtAuthPolicies.any fun p => policy.strictEq (.string p)

end LoadBalancer
