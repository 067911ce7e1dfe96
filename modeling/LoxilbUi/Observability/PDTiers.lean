import LoxilbUi.Observability.AIRequests

-- observability/pdTiers.ts: by which tier the prefill requests are placed, and what the share that
-- reuses a warm endpoint says of the configuration.

namespace Observability

def pdTierSelected : String :=
  "loxilb_ai_pd_tier_selected_total"

def pdSessionHits : String :=
  "loxilb_ai_pd_session_hits_total"

def tier : String :=
  "tier"

def pdFallbackTier : String :=
  "tier2"

structure PDTierGates where
  pdDisagg   : Bool
  cacheAware : Bool
  kvExact    : Bool

inductive Tier0Reconciliation
  | notComparable
  | agrees (selections : ℚ)
  | disagrees (tierSelections sessionHits : ℚ)
  deriving DecidableEq

def lifetimeSum (snapshot : MetricsSnapshot) (family : String) (filter : Labels → Bool) : Option ℚ :=
  let seen := (selectSamples snapshot family).filter fun s => filter s.labels && s.value.isFinite
  if seen.isEmpty then none else some <| seen.map (·.value.part) |>.sum

def tier0Reconciliation (snapshot : Option MetricsSnapshot) : Tier0Reconciliation :=
  match snapshot with
  | none          => .notComparable
  | some snapshot =>
    if snapshot.failure.isSome then .notComparable
    else
      let tierSelections := lifetimeSum snapshot pdTierSelected fun l => l.get? tier = some "tier0"
      let sessionHits    := lifetimeSum snapshot pdSessionHits fun _ => true
      match tierSelections, sessionHits with
      | some a, some b => if a = b then .agrees a else .disagrees a b
      | _, _           => .notComparable

inductive AffinityVerdict
  | noTraffic
  | unknownConfiguration
  | asConfigured
  | reuseWorking
  | configuredNoReuse
  deriving DecidableEq

def affinityVerdict (affinityShare : RatioResult) (gates : Option PDTierGates) : AffinityVerdict :=
  if affinityShare = .noTraffic then .noTraffic
  else match gates with
    | none       => .unknownConfiguration
    | some gates =>
      if !gates.cacheAware && !gates.kvExact then .asConfigured
      else match affinityShare with
        | .ok ratio => if ratio > 0 then .reuseWorking else .configuredNoReuse
        | _         => .unknownConfiguration

inductive PDTierMixReport
  | unavailable
  | notExported
  | ok (affinityShare : RatioResult) (verdict : AffinityVerdict) (reconciliation : Tier0Reconciliation)
  deriving DecidableEq

-- Every tier but the fallback.
def affinityFilter (labels : Labels) : Bool :=
  labels.get? tier ≠ some pdFallbackTier

def pdTierMix (snapshot : Option MetricsSnapshot) (history : List MetricsSnapshot) (maxGapMs : Value)
    (gates : Option PDTierGates) : PDTierMixReport :=
  match snapshot with
  | none          => .unavailable
  | some snapshot =>
    if snapshot.failure.isSome then .unavailable
    else if (snapshot.families.get? pdTierSelected).isNone then .notExported
    else
      let totalRate     := partitionRate history pdTierSelected maxGapMs everything
      let affinityRate  := partitionRate history pdTierSelected maxGapMs <| .predicate affinityFilter
      let affinityShare := ratioOf affinityRate totalRate
      .ok affinityShare (affinityVerdict affinityShare gates) (tier0Reconciliation <| some snapshot)

end Observability
