import LoxilbUi.Library.PlainObject
import LoxilbUi.Observability.Rates

-- observability/jwtAuth.ts: the health of the keysets of the configured profiles, and the verdicts of the
-- bearer gate. `localeCompare` is the order of texts that the platform gives.

namespace JwtAuth

open Observability

def jwksKeys : String :=
  "loxilb_ai_jwks_keys"

def jwksLastSuccess : String :=
  "loxilb_ai_jwks_last_success_timestamp_seconds"

def jwksUsable : String :=
  "loxilb_ai_jwks_usable"

def jwksRefresh : String :=
  "loxilb_ai_jwks_refresh_total"

def jwtValidation : String :=
  "loxilb_ai_jwt_validation_total"

def jwksOutcomeSuccess : String :=
  "success"

def jwksOutcomeFailure : String :=
  "failure"

section Label

def labelMaxBytes : Nat :=
  64

def underscore : UInt8 :=
  0x5f

def isSafeLabelByte (b : UInt8) : Bool :=
  (b ≥ 0x30 && b ≤ 0x39) || (b ≥ 0x41 && b ≤ 0x5a) || (b ≥ 0x61 && b ≤ 0x7a) ||
    b = 0x2e || b = 0x5f || b = 0x2d

def encode (s : String) : List UInt8 :=
  s.toList.flatMap String.utf8EncodeChar

-- Of bytes that are each a character of their own, as the safe ones are.
def decode (bytes : List UInt8) : String :=
  .ofList <| bytes.map fun b => Char.ofNat b.toNat

def jwksProfileLabel (name : String) : String :=
  let safe := (encode name).map fun b => if isSafeLabelByte b then b else underscore
  decode <| safe.take labelMaxBytes

end Label

section Health

inductive LastSuccessAge
  | ok (ageSec : ℚ)
  | clockSkew (aheadSec : ℚ)
  | never
  deriving DecidableEq

def clockSkewSlackSec : ℚ :=
  60

def lastSuccessAge (lastSuccessSec : Option Value) (observedAtMs : ℚ) : LastSuccessAge :=
  match lastSuccessSec with
  | some (.finite lastSuccessSec) =>
    let ageSec := observedAtMs / 1000 - lastSuccessSec
    if ageSec < -clockSkewSlackSec then .clockSkew (-ageSec) else .ok (max 0 ageSec)
  | _                             => .never

inductive JwksHealthKind
  | notReported
  | ambiguousLabel
  | neverFetched
  | staleCutoff
  | lastKnownGood
  | healthy
  deriving DecidableEq

structure JwksHealth where
  profile        : String
  label          : String
  kind           : JwksHealthKind
  admitting      : Bool
  keys           : Option ℚ
  lastSuccess    : LastSuccessAge
  refreshSuccess : RateResult
  refreshFailure : RateResult
  deriving DecidableEq

inductive JwksHealthReport
  | unavailable
  | notExported
  | ok (byProfile : List JwksHealth)

-- The first finite value of each profile.
def addGauge (out : Dict ℚ) (s : MetricSample) : Dict ℚ :=
  match s.labels.get? "profile", s.value with
  | some profile, .finite q => if out.has profile then out else out.set profile q
  | _, _                    => out

def gaugeByLabel (snapshot : MetricsSnapshot) (family : String) : Dict ℚ :=
  (selectSamples snapshot family).foldl addGauge .empty

def refreshRate (history : List MetricsSnapshot) (maxGapMs : Value) (label outcome : String) : RateResult :=
  partitionRate history jwksRefresh maxGapMs <| .equality <| .ofList [("profile", label), ("outcome", outcome)]

def labelCounts (profiles : List String) : Dict Nat :=
  profiles.foldl (fun counts name =>
    let l := jwksProfileLabel name
    counts.set l <| (counts.get? l).getD 0 + 1) .empty

-- What the verdict on a profile is read from.
structure Gauges where
  usable      : Dict ℚ
  keys        : Dict ℚ
  lastSuccess : Dict ℚ

def healthOf (counts : Dict Nat) (gauges : Gauges) (receivedAtMs : ℚ) (refreshRate : String → String → RateResult)
    (profile : String) : JwksHealth :=
  let label := jwksProfileLabel profile
  let base (kind : JwksHealthKind) (admitting : Bool) : JwksHealth := {
    profile        := profile
    label          := label
    kind           := kind
    admitting      := admitting
    keys           := gauges.keys.get? label
    lastSuccess    := lastSuccessAge ((gauges.lastSuccess.get? label).map .finite) receivedAtMs
    refreshSuccess := refreshRate label jwksOutcomeSuccess
    refreshFailure := refreshRate label jwksOutcomeFailure
  }
  if (counts.get? label).getD 0 > 1 then base .ambiguousLabel false
  else match gauges.usable.get? label with
    | none   => base .notReported false
    | some u =>
      if u = 0 then
        if lastSuccessAge ((gauges.lastSuccess.get? label).map .finite) receivedAtMs = .never then
          base .neverFetched false
        else base .staleCutoff false
      else
        let failing : Bool := match refreshRate label jwksOutcomeFailure with
          | .ok perSecond _ => perSecond > 0
          | _               => false
        base (if failing then .lastKnownGood else .healthy) true

def jwksHealthFor (profiles : List String) (snapshot : Option MetricsSnapshot)
    (history : List MetricsSnapshot) (maxGapMs : Value) : JwksHealthReport :=
  match snapshot with
  | none          => .unavailable
  | some snapshot =>
    if snapshot.failure.isSome then .unavailable
    else if (snapshot.families.get? jwksUsable).isNone then .notExported
    else
      let gauges : Gauges := {
        usable      := gaugeByLabel snapshot jwksUsable
        keys        := gaugeByLabel snapshot jwksKeys
        lastSuccess := gaugeByLabel snapshot jwksLastSuccess
      }
      .ok <| profiles.map <|
        healthOf (labelCounts profiles) gauges snapshot.receivedAtMs (refreshRate history maxGapMs)

end Health

section Bearer

def jwtReasonAllowed : String :=
  "allowed"

def jwtLabelAbsent : String :=
  "-"

inductive BearerReasonClass
  | admitted
  | credential
  | authorization
  | gatewayFault
  | unclassified
  deriving DecidableEq

def reasonClasses : Dict BearerReasonClass := .ofList [
  (jwtReasonAllowed,           .admitted),
  ("missing_token",            .credential),
  ("invalid_token",            .credential),
  ("token_expired",            .credential),
  ("model_not_allowed",        .authorization),
  ("policy_store_unavailable", .gatewayFault),
  ("internal_error",           .gatewayFault)]

-- What the table holds under a reason; a member that it inherits is not one of the classes.
inductive Classified
  | declared (c : BearerReasonClass)
  | inherited (member : String)
  deriving DecidableEq

def classifyBearerReason (reason : String) : Classified :=
  match PlainObject.read reasonClasses reason with
  | .own c            => .declared c
  | .inherited member => .inherited member
  | .absent           => .declared .unclassified

structure BearerReasonRate where
  reason      : String
  reasonClass : Classified
  rate        : RateResult
  tenants     : List String

inductive BearerAdmission
  | unavailable
  | notExported
  | ok (admitted denied gatewayFault : RateResult) (byReason : List BearerReasonRate)

def admittedMatch : LabelMatch :=
  .equality <| .ofList [("reason", jwtReasonAllowed)]

def deniedMatch : LabelMatch :=
  .predicate fun l => l.get? "reason" ≠ some jwtReasonAllowed

def gatewayFaultMatch : LabelMatch :=
  .predicate fun l => classifyBearerReason ((l.get? "reason").getD "") = .declared .gatewayFault

-- The tenants of each reason, none of them twice.
def addTenant (tenantsByReason : Dict (List String)) (sample : MetricSample) : Dict (List String) :=
  let reason := (sample.labels.get? "reason").getD ""
  let set := (tenantsByReason.get? reason).getD []
  tenantsByReason.set reason <| set.insert <| (sample.labels.get? "tenant").getD jwtLabelAbsent

def codeUnitsLE (a b : String) : Bool :=
  (compare (JsString.codeUnits a) (JsString.codeUnits b)).isLE

def rateOrder (rate : RateResult) : ℚ :=
  match rate with
  | .ok perSecond _ => perSecond
  | _               => -1

-- The highest rate first, and by the text of the reason among equal ones.
def leads (localeCompare : String → String → Ordering) (a b : BearerReasonRate) : Bool :=
  rateOrder b.rate < rateOrder a.rate ||
    (rateOrder a.rate = rateOrder b.rate && (localeCompare a.reason b.reason).isLE)

def bearerAdmission (localeCompare : String → String → Ordering) (snapshot : Option MetricsSnapshot)
    (history : List MetricsSnapshot) (maxGapMs : Value) : BearerAdmission :=
  match snapshot with
  | none          => .unavailable
  | some snapshot =>
    if snapshot.failure.isSome then .unavailable
    else if (snapshot.families.get? jwtValidation).isNone then .notExported
    else
      let rate := partitionRate history jwtValidation maxGapMs
      let tenantsByReason := (selectSamples snapshot jwtValidation).foldl addTenant .empty
      let byReason := tenantsByReason.entries.map fun (reason, tenants) => {
        reason      := reason
        reasonClass := classifyBearerReason reason
        rate        := rate <| .equality <| .ofList [("reason", reason)]
        tenants     := tenants.mergeSort codeUnitsLE
      }
      .ok (rate admittedMatch) (rate deniedMatch) (rate gatewayFaultMatch) <|
        byReason.mergeSort (leads localeCompare)

end Bearer

end JwtAuth
