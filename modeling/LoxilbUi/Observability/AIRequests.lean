import LoxilbUi.Observability.Rates

-- observability/aiRequests.ts: the requests of the inference gateway, by their outcome.

namespace Observability

def aiRequests : String :=
  "loxilb_ai_requests_total"

def outcome : String :=
  "outcome"

def outcomeCompleted : String :=
  "completed"

def outcomeDenied : String :=
  "denied"

def outcomeIs (value : String) : LabelMatch :=
  .equality ⟨[(outcome, value)], List.nodup_singleton _⟩

-- Older gateways do not tell the outcomes apart.
def hasOutcomePartition (snapshot : Option MetricsSnapshot) : Bool :=
  match snapshot with
  | none          => false
  | some snapshot => (selectSamples snapshot aiRequests).any fun s => (s.labels.get? outcome).isSome

def completedFilter (history : List MetricsSnapshot) : Option LabelMatch :=
  if hasOutcomePartition (newest history) then some <| outcomeIs outcomeCompleted else none

def completedRequestRate (manifest : Manifest) (history : List MetricsSnapshot) (maxGapMs : Value) :
    RateResult :=
  familySumRate manifest history aiRequests maxGapMs <| completedFilter history

-- `/^\d+$/` and `Number(status) >= 400`
def isErrorStatus (status : Option String) : Bool :=
  match status with
  | none        => false
  | some status => status ≠ "" && status.toList.all Char.isDigit &&
    400 ≤ Nat.ofDigitChars 10 status.toList 0

def errorFilter (labels : Labels) : Bool :=
  labels.get? outcome = some outcomeDenied || isErrorStatus (labels.get? "status")

def failedFilter (labels : Labels) : Bool :=
  labels.get? outcome = some outcomeCompleted && isErrorStatus (labels.get? "status")

def everything : LabelMatch :=
  .predicate fun _ => true

def rateOf (history : List MetricsSnapshot) (maxGapMs : Value) (filter : LabelMatch) : RateResult :=
  partitionRate history aiRequests maxGapMs filter

inductive RequestOutcomes
  | unpartitioned
  | partitioned (offered completed denied failed : RateResult) (errorRatio : RatioResult)
  deriving DecidableEq

def requestOutcomes (history : List MetricsSnapshot) (maxGapMs : Value) : RequestOutcomes :=
  if !hasOutcomePartition (newest history) then .unpartitioned
  else
    let offered   := rateOf history maxGapMs everything
    let completed := rateOf history maxGapMs <| outcomeIs outcomeCompleted
    let denied    := rateOf history maxGapMs <| outcomeIs outcomeDenied
    let failed    := rateOf history maxGapMs <| .predicate failedFilter
    let errors    := rateOf history maxGapMs <| .predicate errorFilter
    .partitioned offered completed denied failed <| ratioOf errors offered

def rateLimitHits : String :=
  "loxilb_ai_rate_limit_hits_total"

def modelNotAllowed : String :=
  "loxilb_ai_model_not_allowed_total"

def RateResult.isAbsent : RateResult → Bool
  | absent _ => true
  | _        => false

def RateResult.isOk : RateResult → Bool
  | ok _ _ => true
  | _      => false

-- A term that is absent adds nothing; any other that is no rate is the answer.
def sumDenialTerms (terms : List RateResult) : RateResult :=
  let present := terms.filter (!·.isAbsent)
  if present.isEmpty then terms.head?.getD .insufficientSamples
  else match present.find? (!·.isOk) with
    | some notOk => notOk
    | none       =>
      let (perSecond, intervalMs) := present.foldl (fun (perSecond, intervalMs) r => match r with
        | .ok q i => (perSecond + q, max intervalMs i)
        | _       => (perSecond, intervalMs)) ((0, 0) : ℚ × ℚ)
      .ok perSecond intervalMs

def denialTotalRate (manifest : Manifest) (history : List MetricsSnapshot) (maxGapMs : Value) :
    RateResult :=
  if hasOutcomePartition (newest history) then rateOf history maxGapMs <| outcomeIs outcomeDenied
  else sumDenialTerms [familySumRate manifest history rateLimitHits maxGapMs none,
    familySumRate manifest history modelNotAllowed maxGapMs none]

end Observability
