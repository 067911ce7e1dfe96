import LoxilbUi.Observability.Rates
import Mathlib.Tactic.Linarith

-- Rates over the parts of a family: they add up to the rate over all of it, and the rate over the whole
-- family with a filter is the one over the part.

namespace Observability

variable {manifest : Manifest} {history : List MetricsSnapshot} {family : String} {maxGapMs : Value}
variable {filter : LabelMatch} {p : Labels → Bool} {snapshot previous current : MetricsSnapshot}
variable {samples : List MetricSample} {r i q : ℚ}

section Sums

def IsFinite (samples : List MetricSample) : Prop :=
  ∃ s ∈ samples, s.value.isFinite = true

def partsOf (samples : List MetricSample) : ℚ :=
  (samples.map (·.value.part)).sum

theorem partsOf_cons {s : MetricSample} : partsOf (s :: samples) = s.value.part + partsOf samples := by
  simp [partsOf]

theorem partsOf_perm {samples' : List MetricSample} (h : samples.Perm samples') :
    partsOf samples = partsOf samples' :=
  (h.map _).sum_eq

theorem partsOf_append {samples' : List MetricSample} :
    partsOf (samples ++ samples') = partsOf samples + partsOf samples' := by
  simp [partsOf]

-- The sum goes over the finite samples, and the count is theirs.
theorem foldl_tally (acc : ℚ × Nat × Nat) : (samples.foldl tally acc).1 = acc.1 + partsOf samples ∧
    (samples.foldl tally acc).2.1 = acc.2.1 + samples.countP (·.value.isFinite) := by
  induction samples generalizing acc
  case nil => simp [partsOf]
  case cons s samples hi =>
    obtain ⟨hs, hc⟩ := hi (tally acc s)
    rw [List.foldl_cons, hs, hc, partsOf_cons, List.countP_cons]
    cases hv : s.value <;> simp [tally, hv, Value.part, Value.isFinite, add_assoc, add_comm 1]

theorem aggregateSum_value :
    (aggregateSum samples).value = if samples.any (·.value.isFinite) then some (partsOf samples) else none := by
  obtain ⟨hs, hc⟩ := @foldl_tally samples (0, 0, 0)
  rw [aggregateSum]
  generalize samples.foldl tally (0, 0, 0) = acc at hs hc
  obtain ⟨sum, finite, excluded⟩ := acc
  simp only [zero_add] at hs hc
  simp [hs, hc, List.countP_pos_iff]

def selected (family : String) (filter : LabelMatch) (snapshot : MetricsSnapshot) : List MetricSample :=
  (selectSamples snapshot family).filter fun s => matchesLabels s.labels (some filter)

theorem sumOf_eq_some_iff : sumOf family filter snapshot = some q ↔
    (selected family filter snapshot = [] ∨ IsFinite (selected family filter snapshot)) ∧
      partsOf (selected family filter snapshot) = q := by
  have hs : sumOf family filter snapshot = if selected family filter snapshot = [] then some 0
      else (aggregateSum <| selected family filter snapshot).value := rfl
  rw [hs]
  split
  case isTrue h  => simp [h, partsOf]
  case isFalse h => simp [aggregateSum_value, h, IsFinite]

end Sums

section Rates

-- The two newest snapshots hold the family, and lie apart as a rate needs it.
structure Spans (history : List MetricsSnapshot) (family : String) (maxGapMs : Value)
    (previous current : MetricsSnapshot) : Prop where
  newest : newest history = some current
  before : beforeNewest history = some previous
  held   : current.families.get? family ≠ none ∧ previous.families.get? family ≠ none
  later  : previous.receivedAtMs < current.receivedAtMs
  within : maxGapMs.exceeded (current.receivedAtMs - previous.receivedAtMs) = false

theorem computeCounterRate_eq_ok_iff {before now : Option ℚ} :
    computeCounterRate (pointOf before previous) (pointOf now current) maxGapMs = .ok r i ↔
      previous.receivedAtMs < current.receivedAtMs ∧
      maxGapMs.exceeded (current.receivedAtMs - previous.receivedAtMs) = false ∧
      ∃ a b, before = some a ∧ now = some b ∧ a ≤ b ∧
        i = current.receivedAtMs - previous.receivedAtMs ∧ r = (b - a) / (i / 1000) := by
  cases before
  case none => simp [computeCounterRate, pointOf]
  case some a =>
    cases now
    case none => simp [computeCounterRate, pointOf]
    case some b =>
      simp only [computeCounterRate, pointOf, Option.map_some, sub_nonpos]
      split
      case isTrue h => simp [h.not_gt]
      case isFalse h =>
        split
        case isTrue hg => simp [hg]
        case isFalse hg =>
          split
          case isTrue hr => simp [hr.not_ge]
          case isFalse hr =>
            have hg := Bool.eq_false_of_not_eq_true hg
            simp only [not_le.mp h, hg, true_and, RateResult.ok.injEq, Option.some.injEq, ↓existsAndEq,
              not_lt.mp hr]
            constructor
            · rintro ⟨rfl, rfl⟩
              exact ⟨rfl, rfl⟩
            · rintro ⟨rfl, rfl⟩
              exact ⟨rfl, rfl⟩

theorem partitionRate_eq_ok_iff : partitionRate history family maxGapMs filter = .ok r i ↔
    ∃ previous current a b, Spans history family maxGapMs previous current ∧
      sumOf family filter previous = some a ∧ sumOf family filter current = some b ∧ a ≤ b ∧
      i = current.receivedAtMs - previous.receivedAtMs ∧ r = (b - a) / (i / 1000) := by
  constructor
  case mp =>
    intro h
    rw [partitionRate] at h
    split at h
    case h_2 => cases h
    case h_1 current previous hc hp =>
      split at h
      case isTrue => cases h
      case isFalse hh =>
        obtain ⟨hl, hg, a, b, ha, hb, h⟩ := computeCounterRate_eq_ok_iff.mp h
        exact ⟨previous, current, a, b, ⟨hc, hp, by simpa using hh, hl, hg⟩, ha, hb, h⟩
  case mpr =>
    rintro ⟨previous, current, a, b, hs, ha, hb, h⟩
    rw [partitionRate, hs.newest, hs.before]
    simp only
    rw [if_neg (by simpa using hs.held)]
    exact computeCounterRate_eq_ok_iff.mpr ⟨hs.later, hs.within, a, b, ha, hb, h⟩

end Rates

section Additive

def complement (p : Labels → Bool) : LabelMatch :=
  .predicate fun labels => !p labels

theorem selected_predicate : selected family (.predicate p) snapshot =
    (selectSamples snapshot family).filter fun s => p s.labels :=
  rfl

theorem selected_true :
    selected family (.predicate fun _ => true) snapshot = selectSamples snapshot family := by
  simp [selected_predicate]

theorem selected_perm : (selected family (.predicate p) snapshot ++
    selected family (complement p) snapshot).Perm (selectSamples snapshot family) := by
  rw [complement, selected_predicate, selected_predicate]
  exact List.filter_append_perm (fun s : MetricSample => p s.labels) _

-- Two parts of which each is empty or holds a finite sample make a whole of that kind.
theorem sumOf_add {a b : ℚ} (ha : sumOf family (.predicate p) snapshot = some a)
    (hb : sumOf family (complement p) snapshot = some b) :
    sumOf family (.predicate fun _ => true) snapshot = some (a + b) := by
  obtain ⟨ha, hpa⟩ := sumOf_eq_some_iff.mp ha
  obtain ⟨hb, hpb⟩ := sumOf_eq_some_iff.mp hb
  have hp := @selected_perm family p snapshot
  refine sumOf_eq_some_iff.mpr ⟨?_, ?_⟩
  · rw [selected_true]
    obtain ha | ⟨s, hs, hf⟩ := ha
    · obtain hb | ⟨s, hs, hf⟩ := hb
      · rw [ha, hb] at hp
        exact .inl hp.nil_eq.symm
      · exact .inr ⟨s, hp.subset <| List.mem_append_right _ hs, hf⟩
    · exact .inr ⟨s, hp.subset <| List.mem_append_left _ hs, hf⟩
  · rw [selected_true, ← partsOf_perm hp, partsOf_append, hpa, hpb]

theorem Spans.eq {previous' current' : MetricsSnapshot} (h : Spans history family maxGapMs previous current)
    (h' : Spans history family maxGapMs previous' current') : previous' = previous ∧ current' = current :=
  ⟨Option.some.inj <| h'.before.symm.trans h.before, Option.some.inj <| h'.newest.symm.trans h.newest⟩

theorem partitionRate_add {r' i' : ℚ}
    (h : partitionRate history family maxGapMs (.predicate p) = .ok r i)
    (h' : partitionRate history family maxGapMs (complement p) = .ok r' i') :
    i = i' ∧ partitionRate history family maxGapMs (.predicate fun _ => true) = .ok (r + r') i := by
  obtain ⟨previous, current, a, b, hs, ha, hb, hab, hi, hr⟩ := partitionRate_eq_ok_iff.mp h
  obtain ⟨_, _, a', b', hs', ha', hb', hab', hi', hr'⟩ := partitionRate_eq_ok_iff.mp h'
  obtain ⟨rfl, rfl⟩ := hs.eq hs'
  have he : i = i' := hi.trans hi'.symm
  refine ⟨he, partitionRate_eq_ok_iff.mpr ⟨_, _, a + a', b + b', hs, sumOf_add ha ha', sumOf_add hb hb',
    add_le_add hab hab', hi, ?_⟩⟩
  rw [hr, hr', he]
  ring

end Additive

section Whole

-- What the family sums to with a filter; without a finite sample it is nothing.
def total (family : String) (filter : LabelMatch) (snapshot : MetricsSnapshot) : Option ℚ :=
  (aggregateSum <| selected family filter snapshot).value

theorem groupKeyOf_nil {labels : Labels} : groupKeyOf labels [] = "" :=
  rfl

theorem foldl_addSample {s : MetricSample} :
    (((s :: samples).foldl (addSample []) .empty).entries) = [("", ⟨.empty, s :: samples⟩)] := by
  induction samples using List.reverseRecOn
  case nil => rfl
  case append_singleton samples t hi =>
    rw [← List.cons_append, List.foldl_append, List.foldl_cons, List.foldl_nil]
    generalize (s :: samples).foldl (addSample []) .empty = byGroup at hi
    obtain ⟨entries, hn⟩ := byGroup
    obtain rfl : entries = _ := hi
    simp [addSample, groupKeyOf_nil, Dict.get?, Dict.set, Dict.put]

theorem groupSums_entries : (groupSums snapshot family [] (some filter)).entries =
    if selected family filter snapshot = [] then []
    else [("", ⟨.empty, total family filter snapshot⟩)] := by
  have hg : (groupSums snapshot family [] (some filter)).entries =
      (((selected family filter snapshot).foldl (addSample []) .empty).map fun g =>
        (⟨g.labels, (aggregateSum g.samples).value⟩ : GroupSum)).entries := rfl
  rw [hg]
  cases hs : selected family filter snapshot
  case nil => rfl
  case cons s samples =>
    rw [Dict.map_entries, foldl_addSample, total, hs, if_neg (List.cons_ne_nil _ _)]
    rfl

theorem get?_groupSums : ((groupSums snapshot family [] (some filter)).get? "").bind (·.value) =
    total family filter snapshot := by
  rw [Dict.get?, groupSums_entries]
  split
  case isTrue h  => simp [total, h, aggregateSum_value]
  case isFalse h => simp

-- The rate over the family is one of the two sums.
theorem familySumRate_eq (hc : newest history = some current)
    (ha : familyAbsence manifest (some current) family = none) :
    familySumRate manifest history family maxGapMs (some filter) =
      computeCounterRate
        ((beforeNewest history).bind fun previous => pointOf (total family filter previous) previous)
        (pointOf (total family filter current) current) maxGapMs := by
  have hb : ((beforeNewest history).bind fun previous =>
      ((groupSums previous family [] (some filter)).get? "").bind fun prev => pointOf prev.value previous) =
      (beforeNewest history).bind fun previous => pointOf (total family filter previous) previous := by
    cases beforeNewest history
    case none => rfl
    case some previous =>
      rw [Option.bind_some, Option.bind_some, ← get?_groupSums]
      cases (groupSums previous family [] (some filter)).get? "" <;> rfl
  rw [familySumRate, hc, ha]
  by_cases h : selected family filter current = []
  case pos =>
    have hn : total family filter current = none := by simp [total, h, aggregateSum_value]
    simp only [groupRates, hc, groupSums_entries, if_pos h, List.map_nil, hn]
    cases (beforeNewest history).bind fun previous => pointOf (total family filter previous) previous <;> rfl
  case neg =>
    simp only [groupRates, hc, groupSums_entries, if_neg h, List.map_cons, List.map_nil]
    rw [← hb]

theorem total_eq_some_iff : total family filter snapshot = some q ↔
    IsFinite (selected family filter snapshot) ∧ partsOf (selected family filter snapshot) = q := by
  simp [total, aggregateSum_value, IsFinite]

theorem sumOf_of_total (h : total family filter snapshot = some q) :
    sumOf family filter snapshot = some q :=
  sumOf_eq_some_iff.mpr <| (total_eq_some_iff.mp h).imp_left .inr

theorem held_of_total (h : total family filter snapshot = some q) :
    snapshot.families.get? family ≠ none := by
  intro hn
  obtain ⟨⟨s, hs, -⟩, -⟩ := total_eq_some_iff.mp h
  have hs := List.mem_of_mem_filter hs
  rw [selectSamples, hn] at hs
  cases hs

theorem partitionRate_of_familySumRate
    (h : familySumRate manifest history family maxGapMs (some filter) = .ok r i) :
    partitionRate history family maxGapMs filter = .ok r i := by
  cases hc : newest history
  case none => simp [familySumRate, familyAbsence, groupRates, hc] at h
  case some current =>
    cases ha : familyAbsence manifest (some current) family
    case some reading => simp [familySumRate, hc, ha] at h
    case none =>
      rw [familySumRate_eq hc ha] at h
      cases hp : beforeNewest history
      case none => simp [hp, computeCounterRate] at h
      case some previous =>
        rw [hp, Option.bind_some] at h
        obtain ⟨hl, hg, a, b, hta, htb, h⟩ := computeCounterRate_eq_ok_iff.mp h
        exact partitionRate_eq_ok_iff.mpr ⟨previous, current, a, b,
          ⟨hc, hp, ⟨held_of_total htb, held_of_total hta⟩, hl, hg⟩,
          sumOf_of_total hta, sumOf_of_total htb, h⟩

end Whole

-- Both laws of a family that is cut into parts.
theorem partition_additive (history : List MetricsSnapshot) (family : String) (maxGapMs : Value) :
    (∀ p r i r' i', partitionRate history family maxGapMs (.predicate p) = .ok r i →
      partitionRate history family maxGapMs (complement p) = .ok r' i' →
      i = i' ∧ partitionRate history family maxGapMs (.predicate fun _ => true) = .ok (r + r') i) ∧
    ∀ manifest filter r i, familySumRate manifest history family maxGapMs (some filter) = .ok r i →
      partitionRate history family maxGapMs filter = .ok r i :=
  ⟨fun _ _ _ _ _ => partitionRate_add, fun _ _ _ _ => partitionRate_of_familySumRate⟩

-- A scrape of some families.
def scrapeAll (receivedAtMs : ℚ) (families : List (String × List (List (String × String) × ℚ))) : MetricsSnapshot where
  receivedAtMs := receivedAtMs
  available    := true
  failure      := none
  families     := .ofList <| families.map fun (family, series) => (family, {
    name    := family
    samples := series.map fun (labels, q) => ⟨family, .ofList labels, .finite q⟩
  })

-- A scrape of one family.
def scrape (family : String) (receivedAtMs : ℚ) (series : List (List (String × String) × ℚ)) : MetricsSnapshot :=
  scrapeAll receivedAtMs [(family, series)]

def answers (receivedAtMs ok failed : ℚ) : MetricsSnapshot :=
  scrape "answers_total" receivedAtMs [([("status", "200")], ok), ([("status", "500")], failed)]

-- Each ten seconds sixteen answers and four errors.
theorem partition_additive_answers :
    partitionRate [answers 0 90 10, answers 10000 106 14] "answers_total" (.finite 35000) (.predicate fun _ => true) =
      .ok (2 / 5 + 8 / 5) 10000 ∧
    partitionRate [answers 0 90 10, answers 10000 106 14] "answers_total" (.finite 35000)
      (.predicate (·.get? "status" = some "500")) = .ok (2 / 5) 10000 := by
  have h := partition_additive [answers 0 90 10, answers 10000 106 14] "answers_total" (.finite 35000)
  refine ⟨(h.1 (·.get? "status" = some "500") (2 / 5) 10000 (8 / 5) 10000 ?_ ?_).2, h.2 (fun _ => none) _ _ _ ?_⟩ <;>
    decide +kernel

end Observability
