import LoxilbUi.Observability.Snapshot

-- observability/tokenQuota.ts, on the buckets of a scope: how the utilization and the limit of each are
-- joined into a row.

namespace Observability

inductive QuotaScope
  | tenant
  | tenantModel
  | user
  | userModel
  | key
  | vip
  deriving DecidableEq

structure QuotaScopeFamilies where
  utilization : String
  limit       : String
  labels      : List String

def quotaScope : QuotaScope → QuotaScopeFamilies
  | .tenant      =>
    ⟨"loxilb_ai_token_quota_utilization", "loxilb_ai_token_quota_limit_tokens", ["tenant"]⟩
  | .tenantModel =>
    ⟨"loxilb_ai_token_quota_model_utilization", "loxilb_ai_token_quota_model_limit_tokens", ["tenant", "model"]⟩
  | .user        =>
    ⟨"loxilb_ai_user_token_quota_utilization", "loxilb_ai_user_token_quota_limit_tokens", ["tenant", "user"]⟩
  | .userModel   =>
    ⟨"loxilb_ai_user_model_token_quota_utilization", "loxilb_ai_user_model_token_quota_limit_tokens",
      ["tenant", "user", "model"]⟩
  | .key         =>
    ⟨"loxilb_ai_key_token_quota_utilization", "loxilb_ai_key_token_quota_limit_tokens", ["key_id"]⟩
  | .vip         =>
    ⟨"loxilb_ai_vip_token_quota_utilization", "loxilb_ai_vip_token_quota_limit_tokens", ["service"]⟩

inductive QuotaPressure
  | within
  | saturated
  | inDebt
  deriving DecidableEq

def quotaPressure (utilization : ℚ) : QuotaPressure :=
  if utilization > 1 then .inDebt
  else if utilization ≥ 1 then .saturated
  else .within

structure QuotaRow where
  scope          : QuotaScope
  labels         : Labels
  utilization    : ℚ
  limitTokens    : ℚ
  headroomTokens : Value
  pressure       : QuotaPressure

inductive AnomalyKind
  | unpairedSeries
  | nonPositiveLimit
  deriving DecidableEq

structure QuotaAnomaly where
  scope  : QuotaScope
  labels : Labels
  kind   : AnomalyKind

structure QuotaScopeReading where
  scope     : QuotaScope
  absent    : Bool
  rows      : List QuotaRow
  anomalies : List QuotaAnomaly

-- The values of the labels, with the NUL character between; a label that is missing counts as empty.
def keyOfLabels (values : Labels) (labels : List String) : String :=
  (String.singleton <| Char.ofNat 0).intercalate <| labels.map fun l => (values.get? l).getD ""

def bucketKey (sample : MetricSample) (labels : List String) : String :=
  keyOfLabels sample.labels labels

def labelsOf (sample : MetricSample) (labels : List String) : Labels :=
  labels.foldl (fun out l => out.set l <| (sample.labels.get? l).getD "") .empty

-- `limit * (1 - utilization)`
def headroom (limit utilization : ℚ) : Value :=
  .mul (.finite limit) <| .ofRat (1 - utilization)

-- The rows and anomalies so far, and the keys of which both sides have been seen.
structure Joined where
  rows      : List QuotaRow
  anomalies : List QuotaAnomaly
  paired    : List String

def joinUtilization (scope : QuotaScope) (limits : Dict MetricSample) (acc : Joined) (util : MetricSample) :
    Joined :=
  let spec := quotaScope scope
  let key := bucketKey util spec.labels
  let labels := labelsOf util spec.labels
  match (limits.get? key).map MetricSample.value, util.value with
  | some (.finite limit), .finite utilization =>
    let paired := acc.paired ++ [key]
    if limit ≤ 0 then
      { acc with anomalies := acc.anomalies ++ [⟨scope, labels, .nonPositiveLimit⟩], paired := paired }
    else { acc with
      rows   := acc.rows ++ [{
        scope          := scope
        labels         := labels
        utilization    := utilization
        limitTokens    := limit
        headroomTokens := headroom limit utilization
        pressure       := quotaPressure utilization }]
      paired := paired }
  | _, _                                      =>
    { acc with anomalies := acc.anomalies ++ [⟨scope, labels, .unpairedSeries⟩] }

def readQuotaScope (snapshot : Option MetricsSnapshot) (scope : QuotaScope) : QuotaScopeReading :=
  let spec := quotaScope scope
  let absent : QuotaScopeReading := ⟨scope, true, [], []⟩
  match snapshot with
  | none          => absent
  | some snapshot =>
    if snapshot.failure.isSome then absent
    else if (snapshot.families.get? spec.utilization).isNone && (snapshot.families.get? spec.limit).isNone then absent
    else
      let limits : Dict MetricSample :=
        .ofList <| (selectSamples snapshot spec.limit).map fun s => (bucketKey s spec.labels, s)
      let joined := (selectSamples snapshot spec.utilization).foldl (joinUtilization scope limits) ⟨[], [], []⟩
      -- A limit of which no utilization has been seen.
      let alone := limits.entries.filterMap fun (key, limit) =>
        if key ∈ joined.paired then none
        else some ⟨scope, labelsOf limit spec.labels, .unpairedSeries⟩
      ⟨scope, false, joined.rows, joined.anomalies ++ alone⟩

end Observability
