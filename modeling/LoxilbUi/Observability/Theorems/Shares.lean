import LoxilbUi.Observability.Theorems.AIRequests
import Mathlib.Algebra.Order.BigOperators.Group.List
import Mathlib.Algebra.Order.Field.Basic
import Mathlib.Tactic.NormNum

-- A share of a counter family lies between 0 and 1 unless a restart is hidden: the part and the whole
-- have outgrown what they were before it, and the rest has not.

namespace Observability

variable {history : List MetricsSnapshot} {family : String} {maxGapMs : Value} {p : Labels → Bool}
variable {snapshot previous current : MetricsSnapshot} {samples samples' : List MetricSample}
variable {s t : MetricSample} {ratio : ℚ}

section Counters

def SameSeries (s t : MetricSample) : Prop :=
  s.name = t.name ∧ ∀ k, s.labels.get? k = t.labels.get? k

-- The series of a family that counts: each stands once, with a number that is not negative.
structure IsCounters (samples : List MetricSample) : Prop where
  counts   : ∀ s ∈ samples, ∃ q, s.value = .finite q ∧ 0 ≤ q
  distinct : samples.Pairwise fun s t => ¬SameSeries s t

-- No series goes or falls.
def Grows (samples samples' : List MetricSample) : Prop :=
  ∀ s ∈ samples, ∃ t ∈ samples', SameSeries s t ∧ s.value.part ≤ t.value.part

-- Each series that is there has grown from zero.
def Restarts (samples' : List MetricSample) : Prop :=
  ∀ t ∈ samples', 0 ≤ t.value.part

def Continues (family : String) (previous current : MetricsSnapshot) : Prop :=
  Grows (selectSamples previous family) (selectSamples current family) ∨
    Restarts (selectSamples current family)

structure IsCounterHistory (family : String) (history : List MetricsSnapshot) : Prop where
  counters  : ∀ snapshot ∈ history, IsCounters (selectSamples snapshot family)
  continues : history.IsChain (Continues family)

def partOf (family : String) (p : Labels → Bool) (snapshot : MetricsSnapshot) : ℚ :=
  partsOf <| selected family (.predicate p) snapshot

-- Since a restart the part has outgrown what it was, and so has the whole, but not the rest.
def HidesRestart (history : List MetricsSnapshot) (family : String) (p : Labels → Bool)
    (maxGapMs : Value) : Prop :=
  ∃ previous current, Spans history family maxGapMs previous current ∧
    partOf family p previous ≤ partOf family p current ∧
    partOf family (fun _ => true) previous < partOf family (fun _ => true) current ∧
    partOf family (!p ·) current < partOf family (!p ·) previous

theorem IsCounters.isFinite (h : IsCounters samples) (hs : s ∈ samples) : s.value.isFinite = true := by
  obtain ⟨q, hq, -⟩ := h.counts s hs
  rw [hq]
  rfl

theorem IsCounters.part_nonneg (h : IsCounters samples) (hs : s ∈ samples) : 0 ≤ s.value.part := by
  obtain ⟨q, hq, hn⟩ := h.counts s hs
  rw [hq]
  exact hn

theorem IsCounters.sumOf (h : IsCounters (selectSamples snapshot family)) :
    sumOf family (.predicate p) snapshot = some (partOf family p snapshot) := by
  refine sumOf_eq_some_iff.mpr ⟨?_, rfl⟩
  cases hs : selected family (.predicate p) snapshot
  case nil => exact .inl rfl
  case cons s samples =>
    have hm : s ∈ selected family (.predicate p) snapshot := hs ▸ List.mem_cons_self
    exact .inr ⟨s, List.mem_cons_self, h.isFinite <| List.mem_of_mem_filter hm⟩

theorem partOf_add : partOf family p snapshot + partOf family (!p ·) snapshot =
    partOf family (fun _ => true) snapshot := by
  rw [partOf, partOf, partOf, ← partsOf_append, selected_true]
  exact partsOf_perm selected_perm

end Counters

section Grow

theorem SameSeries.symm (h : SameSeries s t) : SameSeries t s :=
  ⟨h.1.symm, fun k => (h.2 k).symm⟩

theorem SameSeries.trans {u : MetricSample} (h : SameSeries s t) (h' : SameSeries t u) : SameSeries s u :=
  ⟨h.1.trans h'.1, fun k => (h.2 k).trans (h'.2 k)⟩

-- Every series before has its own among those after, and those left over add nothing negative.
theorem partsOf_le (hd : samples.Pairwise fun s t => ¬SameSeries s t) (hg : Grows samples samples')
    (hn : ∀ t ∈ samples', 0 ≤ t.value.part) : partsOf samples ≤ partsOf samples' := by
  induction samples generalizing samples'
  case nil => exact List.sum_nonneg <| by simpa using hn
  case cons s samples hi =>
    obtain ⟨hs, hd⟩ := List.pairwise_cons.mp hd
    obtain ⟨⟨t, ht, hst, hle⟩, hg⟩ := List.forall_mem_cons.mp hg
    obtain ⟨l, r, rfl⟩ := List.append_of_mem ht
    have hp : (l ++ t :: r).Perm (t :: (l ++ r)) := List.perm_middle
    rw [partsOf_perm hp, partsOf_cons, partsOf_cons]
    refine add_le_add hle <| hi hd (fun s' hs' => ?_) fun u hu => hn u <| hp.mem_iff.mpr <| .tail _ hu
    obtain ⟨t', ht', hst', hle'⟩ := hg s' hs'
    obtain rfl | ht' := List.mem_cons.mp <| hp.mem_iff.mp ht'
    · exact absurd (hst.trans hst'.symm) <| hs s' hs'
    · exact ⟨t', ht', hst', hle'⟩

-- Without a restart no part falls.
theorem partOf_le (hp : ∀ s t, SameSeries s t → p s.labels = p t.labels)
    (h : IsCounters (selectSamples previous family)) (h' : IsCounters (selectSamples current family))
    (hg : Grows (selectSamples previous family) (selectSamples current family)) :
    partOf family p previous ≤ partOf family p current := by
  refine partsOf_le (h.distinct.sublist List.filter_sublist) (fun s hs => ?_) fun t ht =>
    h'.part_nonneg <| List.mem_of_mem_filter ht
  rw [selected_predicate] at hs ⊢
  obtain ⟨hs, hps⟩ := List.mem_filter.mp hs
  obtain ⟨t, ht, hst, hle⟩ := hg s hs
  exact ⟨t, List.mem_filter.mpr ⟨ht, hp s t hst ▸ hps⟩, hst, hle⟩

theorem mem_of_newest (h : newest history = some current) : current ∈ history :=
  List.mem_of_getLast? h

theorem mem_of_beforeNewest (h : beforeNewest history = some previous) : previous ∈ history :=
  List.mem_of_mem_dropLast <| List.mem_of_getLast? h

-- Since its last snapshot the process has not restarted.
def Runs (family : String) (history : List MetricsSnapshot) : Prop :=
  ∀ previous current, newest history = some current → beforeNewest history = some previous →
    Grows (selectSamples previous family) (selectSamples current family)

-- So what is hidden is a restart.
theorem Runs.not_hidesRestart (hr : Runs family history)
    (hp : ∀ s t, SameSeries s t → p s.labels = p t.labels) (h : IsCounterHistory family history) :
    ¬HidesRestart history family p maxGapMs := by
  rintro ⟨previous, current, hs, -, -, hf⟩
  refine hf.not_ge <| partOf_le (fun s t hst => by rw [hp s t hst]) ?_ ?_ <| hr _ _ hs.newest hs.before
  · exact h.counters _ <| mem_of_beforeNewest hs.before
  · exact h.counters _ <| mem_of_newest hs.newest

end Grow

section Ratio

def IsShare (ratio : RatioResult) : Prop :=
  ∀ q, ratio = .ok q → 0 ≤ q ∧ q ≤ 1

theorem ratioOf_eq_ok_iff {n d : RateResult} : ratioOf n d = .ok ratio ↔
    ∃ r i r' i', n = .ok r i ∧ d = .ok r' i' ∧ 0 < r' ∧ ratio = r / r' := by
  constructor
  case mp =>
    intro h
    cases n <;> cases d <;> simp only [ratioOf, reduceCtorEq] at h
    case ok.ok r i r' i' =>
      split at h
      · cases h
      · cases h
        exact ⟨r, i, r', i', rfl, rfl, not_le.mp ‹_›, rfl⟩
  case mpr =>
    rintro ⟨r, i, r', i', rfl, rfl, hr, rfl⟩
    simp [ratioOf, hr.not_ge]

-- The rate of a part, over counters.
theorem partitionRate_counters_iff (h : IsCounterHistory family history) {r i : ℚ} :
    partitionRate history family maxGapMs (.predicate p) = .ok r i ↔
      ∃ previous current, Spans history family maxGapMs previous current ∧
        partOf family p previous ≤ partOf family p current ∧
        i = current.receivedAtMs - previous.receivedAtMs ∧
        r = (partOf family p current - partOf family p previous) / (i / 1000) := by
  rw [partitionRate_eq_ok_iff]
  refine exists_congr fun previous => exists_congr fun current => ?_
  constructor
  case mp =>
    rintro ⟨a, b, hs, ha, hb, h'⟩
    rw [(h.counters _ <| mem_of_beforeNewest hs.before).sumOf, Option.some_inj] at ha
    rw [(h.counters _ <| mem_of_newest hs.newest).sumOf, Option.some_inj] at hb
    subst ha hb
    exact ⟨hs, h'⟩
  case mpr =>
    rintro ⟨hs, h'⟩
    exact ⟨_, _, hs, (h.counters _ <| mem_of_beforeNewest hs.before).sumOf,
      (h.counters _ <| mem_of_newest hs.newest).sumOf, h'⟩

theorem ratioOf_partition_iff (h : IsCounterHistory family history) :
    ratioOf (partitionRate history family maxGapMs (.predicate p))
        (partitionRate history family maxGapMs everything) = .ok ratio ↔
      ∃ previous current, Spans history family maxGapMs previous current ∧
        partOf family p previous ≤ partOf family p current ∧
        partOf family (fun _ => true) previous < partOf family (fun _ => true) current ∧
        ratio = (partOf family p current - partOf family p previous) /
          (partOf family (fun _ => true) current - partOf family (fun _ => true) previous) := by
  rw [ratioOf_eq_ok_iff, everything]
  constructor
  case mp =>
    rintro ⟨r, i, r', i', hn, hd, hr', rfl⟩
    obtain ⟨previous, current, hs, hle, rfl, rfl⟩ := (partitionRate_counters_iff h).mp hn
    obtain ⟨_, _, hs', hle', rfl, rfl⟩ := (partitionRate_counters_iff h).mp hd
    obtain ⟨rfl, rfl⟩ := hs.eq hs'
    have hi := sub_pos.mpr hs.later
    have hlt := (div_pos_iff_of_pos_right <| div_pos hi (by norm_num)).mp hr'
    refine ⟨_, _, hs, hle, sub_pos.mp hlt, ?_⟩
    field_simp
  case mpr =>
    rintro ⟨previous, current, hs, hle, hlt, rfl⟩
    have hi := sub_pos.mpr hs.later
    have hd := sub_pos.mpr hlt
    refine ⟨_, _, _, _, (partitionRate_counters_iff h).mpr ⟨previous, current, hs, hle, rfl, rfl⟩,
      (partitionRate_counters_iff h).mpr ⟨previous, current, hs, hlt.le, rfl, rfl⟩,
      div_pos hd <| div_pos hi (by norm_num), ?_⟩
    field_simp

theorem isShare_iff (h : IsCounterHistory family history) :
    IsShare (ratioOf (partitionRate history family maxGapMs (.predicate p))
      (partitionRate history family maxGapMs everything)) ↔ ¬HidesRestart history family p maxGapMs := by
  constructor
  case mp =>
    rintro hsh ⟨previous, current, hs, hle, hlt, hr⟩
    obtain ⟨-, h₁⟩ := hsh _ <| (ratioOf_partition_iff h).mpr ⟨previous, current, hs, hle, hlt, rfl⟩
    rw [div_le_one (sub_pos.mpr hlt), ← partOf_add (p := p), ← partOf_add (p := p)] at h₁
    linarith
  case mpr =>
    intro hh q hq
    obtain ⟨previous, current, hs, hle, hlt, rfl⟩ := (ratioOf_partition_iff h).mp hq
    have hd := sub_pos.mpr hlt
    refine ⟨div_nonneg (sub_nonneg.mpr hle) hd.le, (div_le_one hd).mpr ?_⟩
    by_contra hgt
    refine hh ⟨previous, current, hs, hle, hlt, ?_⟩
    rw [← partOf_add (p := p), ← partOf_add (p := p)] at hgt
    linarith

end Ratio

section Shares

variable {gates : Option PDTierGates} {scraped : Option MetricsSnapshot}

structure SharesInRange (scraped : Option MetricsSnapshot) (history : List MetricsSnapshot)
    (maxGapMs : Value) (gates : Option PDTierGates) : Prop where
  errorRatio    : ∀ offered completed denied failed ratio,
    requestOutcomes history maxGapMs = .partitioned offered completed denied failed ratio → IsShare ratio
  affinityShare : ∀ share verdict reconciliation,
    pdTierMix scraped history maxGapMs gates = .ok share verdict reconciliation → IsShare share

-- The scrape answered, with a family in it.
def Exports (family : String) (scraped : Option MetricsSnapshot) : Prop :=
  ∃ snapshot, scraped = some snapshot ∧ snapshot.failure = none ∧ snapshot.families.get? family ≠ none

theorem errorRatio_iff : (∀ offered completed denied failed ratio,
      requestOutcomes history maxGapMs = .partitioned offered completed denied failed ratio →
      IsShare ratio) ↔
    (hasOutcomePartition (newest history) = true →
      IsShare (ratioOf (partitionRate history aiRequests maxGapMs <| .predicate errorFilter)
        (partitionRate history aiRequests maxGapMs everything))) := by
  cases hp : hasOutcomePartition (newest history)
  case false => simp [requestOutcomes, hp]
  case true =>
    simp only [requestOutcomes, hp, Bool.not_true, Bool.false_eq_true, if_false, forall_const]
    constructor
    case mp => exact fun h => h _ _ _ _ _ rfl
    case mpr =>
      rintro h _ _ _ _ _ ⟨⟩
      exact h

theorem pdTierMix_exports (hf : snapshot.failure = none)
    (hh : snapshot.families.get? pdTierSelected ≠ none) :
    pdTierMix (some snapshot) history maxGapMs gates =
      let share := ratioOf (partitionRate history pdTierSelected maxGapMs <| .predicate affinityFilter)
        (partitionRate history pdTierSelected maxGapMs everything)
      .ok share (affinityVerdict share gates) (tier0Reconciliation <| some snapshot) := by
  simp [pdTierMix, hf, hh]

theorem affinityShare_iff : (∀ share verdict reconciliation,
      pdTierMix scraped history maxGapMs gates = .ok share verdict reconciliation → IsShare share) ↔
    (Exports pdTierSelected scraped →
      IsShare (ratioOf (partitionRate history pdTierSelected maxGapMs <| .predicate affinityFilter)
        (partitionRate history pdTierSelected maxGapMs everything))) := by
  constructor
  case mp =>
    rintro h ⟨snapshot, rfl, hf, hh⟩
    exact h _ _ _ <| pdTierMix_exports hf hh
  case mpr =>
    intro h share verdict reconciliation hm
    cases scraped
    case none => cases hm
    case some snapshot =>
      simp only [pdTierMix] at hm
      split at hm
      case isTrue => cases hm
      case isFalse hf =>
        split at hm
        case isTrue => cases hm
        case isFalse hh =>
          cases hm
          exact h ⟨snapshot, rfl, by simpa using hf, by simpa using hh⟩

theorem sharesInRange_iff (h : IsCounterHistory aiRequests history)
    (h' : IsCounterHistory pdTierSelected history) :
    SharesInRange scraped history maxGapMs gates ↔
      (hasOutcomePartition (newest history) = true →
        ¬HidesRestart history aiRequests errorFilter maxGapMs) ∧
      (Exports pdTierSelected scraped → ¬HidesRestart history pdTierSelected affinityFilter maxGapMs) := by
  rw [← isShare_iff h, ← isShare_iff h', ← errorRatio_iff, ← @affinityShare_iff history maxGapMs gates scraped]
  exact ⟨fun hs => ⟨hs.errorRatio, hs.affinityShare⟩, fun hs => ⟨hs.left, hs.right⟩⟩

theorem errorFilter_congr (h : SameSeries s t) : errorFilter s.labels = errorFilter t.labels := by
  simp only [errorFilter, h.2]

theorem affinityFilter_congr (h : SameSeries s t) : affinityFilter s.labels = affinityFilter t.labels := by
  simp only [affinityFilter, h.2]

theorem sharesInRange_of_runs (h : IsCounterHistory aiRequests history)
    (h' : IsCounterHistory pdTierSelected history) (hr : Runs aiRequests history)
    (hr' : Runs pdTierSelected history) : SharesInRange scraped history maxGapMs gates where
  errorRatio    := errorRatio_iff.mpr fun _ =>
    (isShare_iff h).mpr <| hr.not_hidesRestart (fun _ _ => errorFilter_congr) h
  affinityShare := affinityShare_iff.mpr fun _ =>
    (isShare_iff h').mpr <| hr'.not_hidesRestart (fun _ _ => affinityFilter_congr) h'

-- The gateway restarts, and the refusals outgrow at once what both outcomes were before.
def floodedAfterRestart : List MetricsSnapshot :=
  [scrape aiRequests 0 [denied 10, completed 90], scrape aiRequests 10000 [denied 50, completed 55]]

theorem isCounters_pair {s t : MetricSample} {q r : ℚ} (hs : s.value = .finite q) (ht : t.value = .finite r) (hq : 0 ≤ q)
    (hr : 0 ≤ r) (h : ¬SameSeries s t) : IsCounters [s, t] where
  counts u hu := by
    obtain rfl | rfl := List.mem_pair.mp hu
    · exact ⟨q, hs, hq⟩
    · exact ⟨r, ht, hr⟩
  distinct    := List.pairwise_pair.mpr h

-- Counters may restart from one scrape to the next.
theorem isCounterHistory_pair (h : IsCounters <| selectSamples previous family)
    (h' : IsCounters <| selectSamples current family) : IsCounterHistory family [previous, current] where
  counters s hs := by
    obtain rfl | rfl := List.mem_pair.mp hs
    · exact h
    · exact h'
  continues     := .cons_cons (.inr fun _ => h'.part_nonneg) (.singleton _)

theorem not_sameSeries_outcomes {q r : ℚ} : ¬SameSeries ⟨aiRequests, .ofList (denied q).1, .finite q⟩
    ⟨aiRequests, .ofList (completed r).1, .finite r⟩ := by
  intro h
  have h : some outcomeDenied = some outcomeCompleted := h.2 outcome
  revert h
  decide

theorem isCounterHistory_outcomes {a b c d : ℚ} (ha : 0 ≤ a) (hb : 0 ≤ b) (hc : 0 ≤ c) (hd : 0 ≤ d) :
    IsCounterHistory aiRequests [scrape aiRequests 0 [denied a, completed b],
      scrape aiRequests 10000 [denied c, completed d]] :=
  isCounterHistory_pair (isCounters_pair rfl rfl ha hb not_sameSeries_outcomes)
    (isCounters_pair rfl rfl hc hd not_sameSeries_outcomes)

theorem isCounterHistory_absent {series series' : List (List (String × String) × ℚ)} :
    IsCounterHistory pdTierSelected [scrape aiRequests 0 series, scrape aiRequests 10000 series'] := by
  have ha {q : ℚ} {series : List (List (String × String) × ℚ)} :
      selectSamples (scrape aiRequests q series) pdTierSelected = [] := rfl
  constructor
  case counters =>
    intro snapshot hs
    obtain rfl | rfl := List.mem_pair.mp hs <;> exact ⟨by simp [ha], by simp [ha]⟩
  case continues => exact .cons_cons (.inl <| by simp [Grows, ha]) (.singleton _)

theorem not_sharesInRange_floodedAfterRestart : ¬∀ (scraped : Option MetricsSnapshot)
    (history : List MetricsSnapshot) (maxGapMs : Value) (gates : Option PDTierGates),
    IsCounterHistory aiRequests history → IsCounterHistory pdTierSelected history →
    SharesInRange scraped history maxGapMs gates := by
  intro h
  have hs := (h none floodedAfterRestart (.finite 35000) none
    (isCounterHistory_outcomes (by decide) (by decide) (by decide) (by decide))
    isCounterHistory_absent).errorRatio
  have ho : requestOutcomes floodedAfterRestart (.finite 35000) =
      .partitioned (.ok (1 / 2) 10000) .reset (.ok 4 10000) (.ok 0 10000) (.ok 8) := by decide +kernel
  have h₁ := (hs _ _ _ _ _ ho 8 rfl).right
  revert h₁
  decide

def placed (value : String) (q : ℚ) : List (String × String) × ℚ :=
  ([(tier, value)], q)

-- Requests that are answered or refused, and placed by the first tier or by the last.
def busy (receivedAtMs refused answered warm cold : ℚ) : MetricsSnapshot :=
  scrapeAll receivedAtMs [(aiRequests, [denied refused, completed answered]),
    (pdTierSelected, [placed "tier0" warm, placed pdFallbackTier cold])]

theorem not_sameSeries_tiers {q r : ℚ} : ¬SameSeries ⟨pdTierSelected, .ofList (placed "tier0" q).1, .finite q⟩
    ⟨pdTierSelected, .ofList (placed pdFallbackTier r).1, .finite r⟩ := by
  intro h
  have h : some "tier0" = some pdFallbackTier := h.2 tier
  revert h
  decide

-- Both shares are there, and both are below one.
theorem sharesInRange_busy :
    SharesInRange (some <| busy 10000 14 106 18 8) [busy 0 10 90 6 4, busy 10000 14 106 18 8] (.finite 35000)
      (some ⟨true, true, false⟩) ∧
    requestOutcomes [busy 0 10 90 6 4, busy 10000 14 106 18 8] (.finite 35000) =
      .partitioned (.ok 2 10000) (.ok (8 / 5) 10000) (.ok (2 / 5) 10000) (.ok 0 10000) (.ok (1 / 5)) ∧
    pdTierMix (some <| busy 10000 14 106 18 8) [busy 0 10 90 6 4, busy 10000 14 106 18 8] (.finite 35000)
      (some ⟨true, true, false⟩) = .ok (.ok (3 / 4)) .reuseWorking .notComparable := by
  refine ⟨(sharesInRange_iff ?_ ?_).mpr ⟨fun _ => ?_, fun _ => ?_⟩, by decide +kernel, by decide +kernel⟩
  · exact isCounterHistory_pair (isCounters_pair rfl rfl (by decide) (by decide) not_sameSeries_outcomes)
      (isCounters_pair rfl rfl (by decide) (by decide) not_sameSeries_outcomes)
  · exact isCounterHistory_pair (isCounters_pair rfl rfl (by decide) (by decide) not_sameSeries_tiers)
      (isCounters_pair rfl rfl (by decide) (by decide) not_sameSeries_tiers)
  all_goals
    rintro ⟨previous, current, hs, -, -, hf⟩
    obtain rfl := Option.some.inj hs.newest
    obtain rfl := Option.some.inj hs.before
    revert hf
    decide +kernel

end Shares

end Observability
