import LoxilbUi.Library.JsNumber
import LoxilbUi.Observability.Snapshot

-- observability/rates.ts, familyActivation.ts and snapshotRates.ts: the rate of a counter between the
-- two newest snapshots. `manifest` is the vendored list of the families a gateway can export.

namespace Observability

inductive ActivationKind
  | eager
  | lazy
  | gated
  | unknown
  deriving DecidableEq

structure ManifestFamily where
  activationKind         : ActivationKind
  activationPrecondition : String

abbrev Manifest :=
  String → Option ManifestFamily

inductive AbsenceReading
  | notInManifest
  | conditional (precondition : String)
  | gated
  | untilUsed
  | unexpected
  | indeterminate
  deriving DecidableEq

def absenceReading (manifest : Manifest) (name : String) : AbsenceReading :=
  match manifest name with
  | none        => .notInManifest
  | some family =>
    -- A family that is registered at once may still wait for its precondition.
    let precondition := JsString.trim family.activationPrecondition
    if precondition ≠ "" then .conditional precondition
    else match family.activationKind with
      | .gated   => .gated
      | .lazy    => .untilUsed
      | .unknown => .indeterminate
      | .eager   => .unexpected

def familyAbsence (manifest : Manifest) (snapshot : Option MetricsSnapshot) (family : String) :
    Option AbsenceReading :=
  match snapshot with
  | none          => none
  | some snapshot =>
    if !snapshot.available || snapshot.failure.isSome then none
    else if (snapshot.families.get? family).isNone then some <| absenceReading manifest family
    else none

structure CounterPoint where
  value        : Value
  receivedAtMs : ℚ

inductive RateResult
  | ok (perSecond intervalMs : ℚ)
  | insufficientSamples
  | invalidSample
  | invalidInterval
  | reset
  | gap
  | absent (reading : AbsenceReading)
  deriving DecidableEq

def computeCounterRate (previous current : Option CounterPoint) (maxGapMs : Value) : RateResult :=
  match previous, current with
  | some previous, some current =>
    match previous.value, current.value with
    | .finite before, .finite now =>
      let intervalMs := current.receivedAtMs - previous.receivedAtMs
      if intervalMs ≤ 0 then .invalidInterval
      else if maxGapMs.exceeded intervalMs then .gap
      else if now < before then .reset
      else .ok ((now - before) / (intervalMs / 1000)) intervalMs
    | _, _                        => .invalidSample
  | _, _                        => .insufficientSamples

-- `slice(-count)`. There is no negative zero to count from the end with.
def sliceEnd {α : Type} (l : List α) (count : Nat) : List α :=
  if count = 0 then l else l.drop (l.length - count)

def pushRetained {α : Type} (receivedAtMs : α → JsNumber) (ring : List α) (point : α)
    (capacity : Nat) : List α :=
  match ring.getLast? with
  | none      => sliceEnd (ring ++ [point]) capacity
  | some last =>
    -- A second delivery of the same observation.
    if (receivedAtMs last).strictEq (receivedAtMs point) then ring
    else sliceEnd (ring ++ [point]) capacity

-- A rate that is `ok` is no reason.
inductive RatioResult
  | ok (ratio : ℚ)
  | noTraffic
  | notDerivable (reason : RateResult)
  deriving DecidableEq

def ratioOf (numerator denominator : RateResult) : RatioResult :=
  match numerator, denominator with
  | .ok n _, .ok d _ => if d ≤ 0 then .noTraffic else .ok (n / d)
  | .ok _ _, other   => .notDerivable other
  | other, _         => .notDerivable other

inductive LabelMatch
  | equality (labels : Labels)
  | predicate (p : Labels → Bool)

def matchesLabels (labels : Labels) (filter : Option LabelMatch) : Bool :=
  match filter with
  | none                => true
  | some (.predicate p) => p labels
  | some (.equality ls) => ls.entries.all fun (k, v) => labels.get? k = some v

def groupKeyOf (labels : Labels) (groupBy : List String) : String :=
  (String.singleton <| Char.ofNat 0).intercalate <|
    groupBy.map fun k => k ++ "=" ++ (labels.get? k).getD ""

structure Group where
  labels  : Labels
  samples : List MetricSample

def groupLabels (labels : Labels) (groupBy : List String) : Labels :=
  groupBy.foldl (fun ls k => match labels.get? k with
    | some v => ls.set k v
    | none   => ls) .empty

def addSample (groupBy : List String) (byGroup : Dict Group) (s : MetricSample) : Dict Group :=
  let key := groupKeyOf s.labels groupBy
  let g := (byGroup.get? key).getD ⟨groupLabels s.labels groupBy, []⟩
  byGroup.set key { g with samples := g.samples ++ [s] }

structure GroupSum where
  labels : Labels
  value  : Option ℚ

def groupSums (snapshot : MetricsSnapshot) (family : String) (groupBy : List String)
    (filter : Option LabelMatch) : Dict GroupSum :=
  let matched := (selectSamples snapshot family).filter fun s => matchesLabels s.labels filter
  (matched.foldl (addSample groupBy) .empty).map fun g => ⟨g.labels, (aggregateSum g.samples).value⟩

def pointOf (value : Option ℚ) (snapshot : MetricsSnapshot) : Option CounterPoint :=
  value.map fun q => ⟨.finite q, snapshot.receivedAtMs⟩

structure GroupRate where
  labels  : Labels
  rate    : RateResult
  current : Option ℚ

-- The history with its newest snapshot last.
def newest (history : List MetricsSnapshot) : Option MetricsSnapshot :=
  history.getLast?

def beforeNewest (history : List MetricsSnapshot) : Option MetricsSnapshot :=
  history.dropLast.getLast?

def groupRates (history : List MetricsSnapshot) (family : String) (groupBy : List String)
    (maxGapMs : Value) (filter : Option LabelMatch) : List GroupRate :=
  match newest history with
  | none         => []
  | some current =>
    let now := groupSums current family groupBy filter
    now.entries.map fun (key, g) =>
      let before := (beforeNewest history).bind fun previous =>
        ((groupSums previous family groupBy filter).get? key).bind fun prev => pointOf prev.value previous
      ⟨g.labels, computeCounterRate before (pointOf g.value current) maxGapMs, g.value⟩

def familySumRate (manifest : Manifest) (history : List MetricsSnapshot) (family : String)
    (maxGapMs : Value) (filter : Option LabelMatch) : RateResult :=
  match familyAbsence manifest (newest history) family with
  | some reading => .absent reading
  | none         =>
    match groupRates history family [] maxGapMs filter with
    | [r] => r.rate
    | _   => .insufficientSamples

-- No sample at all is a true zero here; samples that are none of them finite are not.
def sumOf (family : String) (filter : LabelMatch) (s : MetricsSnapshot) : Option ℚ :=
  let matched := (selectSamples s family).filter fun x => matchesLabels x.labels (some filter)
  if matched = [] then some 0 else (aggregateSum matched).value

def partitionRate (history : List MetricsSnapshot) (family : String) (maxGapMs : Value)
    (filter : LabelMatch) : RateResult :=
  match newest history, beforeNewest history with
  | some current, some previous =>
    if (current.families.get? family).isNone || (previous.families.get? family).isNone then
      .insufficientSamples
    else computeCounterRate (pointOf (sumOf family filter previous) previous)
      (pointOf (sumOf family filter current) current) maxGapMs
  | _, _ => .insufficientSamples

end Observability
