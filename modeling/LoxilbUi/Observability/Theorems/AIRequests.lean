import LoxilbUi.Observability.PDTiers
import LoxilbUi.Observability.Theorems.Partition

-- The rate of completed requests has two readings. They are one as long as the series of the completed
-- requests stand in both snapshots, or in neither a rate can be read.

namespace Observability

variable {manifest : Manifest} {history : List MetricsSnapshot} {family : String} {maxGapMs : Value}
variable {filter : LabelMatch} {snapshot previous current : MetricsSnapshot}

section Readings

-- There are series, and no number in any of them.
def Unreadable (family : String) (filter : LabelMatch) (snapshot : MetricsSnapshot) : Prop :=
  selected family filter snapshot ≠ [] ∧ ¬IsFinite (selected family filter snapshot)

theorem sumOf_eq_none_iff : sumOf family filter snapshot = none ↔ Unreadable family filter snapshot := by
  rw [Option.eq_none_iff_forall_ne_some, Unreadable, ← not_or]
  constructor
  case mp => exact fun h hs => h _ <| sumOf_eq_some_iff.mpr ⟨hs, rfl⟩
  case mpr => exact fun h q hs => h (sumOf_eq_some_iff.mp hs).left

theorem sumOf_eq_total (h : selected family filter snapshot ≠ []) :
    sumOf family filter snapshot = total family filter snapshot :=
  if_neg h

theorem total_of_nil (h : selected family filter snapshot = []) : total family filter snapshot = none := by
  simp [total, h, aggregateSum_value]

theorem computeCounterRate_eq_insufficientSamples_iff {a b : Option ℚ} :
    computeCounterRate (pointOf a previous) (pointOf b current) maxGapMs = .insufficientSamples ↔
      a = none ∨ b = none := by
  cases a <;> cases b <;> simp [pointOf, computeCounterRate]
  split
  · simp
  · split
    · simp
    · split <;> simp

-- The two ways to a rate over two snapshots that hold the family.
theorem total_rate_eq_iff :
    computeCounterRate (pointOf (total family filter previous) previous)
        (pointOf (total family filter current) current) maxGapMs =
      computeCounterRate (pointOf (sumOf family filter previous) previous)
        (pointOf (sumOf family filter current) current) maxGapMs ↔
    (selected family filter previous ≠ [] ∧ selected family filter current ≠ []) ∨
      Unreadable family filter previous ∨ Unreadable family filter current := by
  by_cases h : selected family filter previous ≠ [] ∧ selected family filter current ≠ []
  case pos =>
    rw [sumOf_eq_total h.left, sumOf_eq_total h.right]
    exact iff_of_true rfl <| .inl h
  case neg =>
    have hn : total family filter previous = none ∨ total family filter current = none :=
      (not_and_or.mp h).imp (fun h => total_of_nil <| not_not.mp h)
        fun h => total_of_nil <| not_not.mp h
    rw [computeCounterRate_eq_insufficientSamples_iff.mpr hn, eq_comm,
      computeCounterRate_eq_insufficientSamples_iff, sumOf_eq_none_iff, sumOf_eq_none_iff, or_iff_right h]

end Readings

section Completed

-- One figure on the page, read in two ways.
def OneReading (manifest : Manifest) (history : List MetricsSnapshot) (maxGapMs : Value) : Prop :=
  match requestOutcomes history maxGapMs with
  | .unpartitioned                      => False
  | .partitioned _ completed denied _ _ =>
    completedRequestRate manifest history maxGapMs = completed ∧
      denialTotalRate manifest history maxGapMs = denied

instance : Decidable (OneReading manifest history maxGapMs) :=
  match h : requestOutcomes history maxGapMs with
  | .unpartitioned                      => isFalse <| by simp [OneReading, h]
  | .partitioned _ completed denied _ _ =>
    decidable_of_iff (completedRequestRate manifest history maxGapMs = completed ∧
      denialTotalRate manifest history maxGapMs = denied) <| by simp [OneReading, h]

variable (hp : hasOutcomePartition (newest history) = true)

include hp in
theorem exists_newest : ∃ current, newest history = some current ∧
    current.families.get? aiRequests ≠ none := by
  cases hc : newest history
  case none => simp [hc, hasOutcomePartition] at hp
  case some current =>
    refine ⟨current, rfl, fun hn => ?_⟩
    simp [hc, hasOutcomePartition, selectSamples, hn] at hp

-- A completed request has been seen by both snapshots, or the reading of neither is a rate.
def Comparable (history : List MetricsSnapshot) : Prop :=
  ∀ previous current, newest history = some current → beforeNewest history = some previous →
    previous.families.get? aiRequests ≠ none →
    (selected aiRequests (outcomeIs outcomeCompleted) previous ≠ [] ∧
      selected aiRequests (outcomeIs outcomeCompleted) current ≠ []) ∨
      Unreadable aiRequests (outcomeIs outcomeCompleted) previous ∨
      Unreadable aiRequests (outcomeIs outcomeCompleted) current

include hp in
theorem completed_eq_iff : completedRequestRate manifest history maxGapMs =
    rateOf history maxGapMs (outcomeIs outcomeCompleted) ↔ Comparable history := by
  obtain ⟨current, hc, hh⟩ := exists_newest hp
  have ha : familyAbsence manifest (some current) aiRequests = none := by
    simp [familyAbsence, hh]
  rw [completedRequestRate, completedFilter, if_pos hp, familySumRate_eq hc ha, rateOf, partitionRate, hc]
  cases hb : beforeNewest history
  case none =>
    refine iff_of_true rfl fun _ _ _ h => ?_
    cases hb.symm.trans h
  case some previous =>
    simp only [Option.bind_some]
    by_cases hq : previous.families.get? aiRequests = none
    case pos =>
      have hn : total aiRequests (outcomeIs outcomeCompleted) previous = none :=
        total_of_nil <| by simp [selected, selectSamples, hq]
      rw [if_pos (by simp [hq]), computeCounterRate_eq_insufficientSamples_iff.mpr <| .inl hn]
      refine iff_of_true rfl fun _ _ _ h hne => ?_
      obtain rfl := Option.some.inj <| hb.symm.trans h
      exact absurd hq hne
    case neg =>
      rw [if_neg (by simp [hq, hh]), total_rate_eq_iff]
      constructor
      case mp =>
        intro h _ _ hc' hb' _
        obtain rfl := Option.some.inj <| hc.symm.trans hc'
        obtain rfl := Option.some.inj <| hb.symm.trans hb'
        exact h
      case mpr => exact fun h => h previous current hc hb hq

include hp in
theorem oneReading_iff_comparable : OneReading manifest history maxGapMs ↔ Comparable history := by
  have ho : requestOutcomes history maxGapMs = .partitioned (rateOf history maxGapMs everything)
      (rateOf history maxGapMs <| outcomeIs outcomeCompleted)
      (rateOf history maxGapMs <| outcomeIs outcomeDenied)
      (rateOf history maxGapMs <| .predicate failedFilter)
      (ratioOf (rateOf history maxGapMs <| .predicate errorFilter) (rateOf history maxGapMs everything)) := by
    simp [requestOutcomes, hp]
  have hd : denialTotalRate manifest history maxGapMs =
      rateOf history maxGapMs (outcomeIs outcomeDenied) := by
    simp [denialTotalRate, hp]
  rw [OneReading, ho]
  simp only [hd, and_true]
  exact completed_eq_iff hp

def denied (q : ℚ) : List (String × String) × ℚ :=
  ([(outcome, outcomeDenied), ("status", "429")], q)

def completed (q : ℚ) : List (String × String) × ℚ :=
  ([(outcome, outcomeCompleted), ("status", "200")], q)

-- Every request is refused, so no backend ever answered one.
def refusedOnly : List MetricsSnapshot :=
  [scrape aiRequests 0 [denied 3], scrape aiRequests 10000 [denied 5]]

theorem not_oneReading_refusedOnly : ¬∀ (manifest : Manifest) (history : List MetricsSnapshot)
    (maxGapMs : Value), hasOutcomePartition (newest history) = true →
    OneReading manifest history maxGapMs := by
  intro h
  have h := h (fun _ => none) refusedOnly (.finite 35000) (by decide)
  revert h
  decide +kernel

theorem oneReading_answered :
    OneReading (fun _ => none)
      [scrape aiRequests 0 [denied 3, completed 1], scrape aiRequests 10000 [completed 4, denied 5]]
      (.finite 35000) := by
  refine (oneReading_iff_comparable (by decide)).mpr fun previous current hc hb _ => .inl ?_
  obtain rfl := Option.some.inj hc
  obtain rfl := Option.some.inj hb
  exact ⟨by decide, by decide⟩

end Completed

end Observability
