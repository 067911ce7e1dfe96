import LoxilbUi.Library.RowLookup
import LoxilbUi.Observability.TokenQuota
import Mathlib.Data.List.Induction
import Mathlib.Tactic.Linarith

-- What is told of each bucket of a scope: one row, or one anomaly.

namespace Observability

open RowLookup

variable {snapshot : MetricsSnapshot} {scope : QuotaScope} {limits : Dict MetricSample} {acc : Joined}
variable {util limit s : MetricSample} {utils samples : List MetricSample} {labels : List String} {key : String}

section Keys

theorem get?_labelsOf (h : key ∈ labels) :
    (labelsOf s labels).get? key = some ((s.labels.get? key).getD "") := by
  rw [labelsOf]
  induction labels using List.reverseRecOn
  case nil => contradiction
  case append_singleton labels l hi =>
    rw [List.foldl_concat, Dict.get?_set]
    split
    case isTrue hl  => rw [hl]
    case isFalse hl =>
      refine hi ?_
      simpa [hl] using h

-- The labels that are told of a bucket are those of its key.
theorem keyOfLabels_labelsOf : keyOfLabels (labelsOf s labels) labels = bucketKey s labels := by
  rw [bucketKey, keyOfLabels, keyOfLabels]
  congr 1
  refine List.map_congr_left fun l hl => ?_
  rw [get?_labelsOf hl, Option.getD_some]

end Keys

section Join

-- What one utilization adds.
def rowOf (scope : QuotaScope) (limits : Dict MetricSample) (util : MetricSample) : Option QuotaRow :=
  (joinUtilization scope limits ⟨[], [], []⟩ util).rows.head?

def anomalyOf (scope : QuotaScope) (limits : Dict MetricSample) (util : MetricSample) : Option QuotaAnomaly :=
  (joinUtilization scope limits ⟨[], [], []⟩ util).anomalies.head?

def pairs (scope : QuotaScope) (limits : Dict MetricSample) (util : MetricSample) : Option String :=
  (joinUtilization scope limits ⟨[], [], []⟩ util).paired.head?

theorem joinUtilization_eq : joinUtilization scope limits acc util =
    ⟨acc.rows ++ (rowOf scope limits util).toList, acc.anomalies ++ (anomalyOf scope limits util).toList,
      acc.paired ++ (pairs scope limits util).toList⟩ := by
  simp only [rowOf, anomalyOf, pairs, joinUtilization]
  split
  case h_1 => split <;> simp
  case h_2 => simp

theorem foldl_joinUtilization (scope : QuotaScope) (limits : Dict MetricSample) (utils : List MetricSample) :
    utils.foldl (joinUtilization scope limits) ⟨[], [], []⟩ =
      ⟨utils.filterMap (rowOf scope limits), utils.filterMap (anomalyOf scope limits),
        utils.filterMap (pairs scope limits)⟩ := by
  induction utils using List.reverseRecOn
  case nil => rfl
  case append_singleton utils util hi =>
    rw [List.foldl_concat, hi, joinUtilization_eq]
    simp only [List.filterMap_append, List.filterMap_cons, List.filterMap_nil, Joined.mk.injEq, List.append_cancel_left_eq]
    refine ⟨?_, ?_, ?_⟩
    · cases rowOf scope limits util <;> rfl
    · cases anomalyOf scope limits util <;> rfl
    · cases pairs scope limits util <;> rfl

-- The bucket of a utilization has a limit, and both are finite.
def Measured (scope : QuotaScope) (limits : Dict MetricSample) (util : MetricSample) (m q : ℚ) : Prop :=
  ∃ limit, limits.get? (bucketKey util (quotaScope scope).labels) = some limit ∧ limit.value = .finite m ∧
    util.value = .finite q

variable {m q : ℚ}

theorem joined_of_positive (h : Measured scope limits util m q) (hm : 0 < m) :
    (∃ row, rowOf scope limits util = some row ∧ row.labels = labelsOf util (quotaScope scope).labels ∧
      row.limitTokens = m ∧ row.utilization = q ∧ row.headroomTokens = headroom m q ∧
      row.pressure = quotaPressure q) ∧
    anomalyOf scope limits util = none ∧ pairs scope limits util = some (bucketKey util (quotaScope scope).labels) := by
  obtain ⟨limit, hl, hv, hu⟩ := h
  simp [rowOf, anomalyOf, pairs, joinUtilization, hl, hv, hu, not_le.mpr hm]

theorem joined_of_not_positive (h : Measured scope limits util m q) (hm : m ≤ 0) :
    rowOf scope limits util = none ∧
    anomalyOf scope limits util = some ⟨scope, labelsOf util (quotaScope scope).labels, .nonPositiveLimit⟩ ∧
    pairs scope limits util = some (bucketKey util (quotaScope scope).labels) := by
  obtain ⟨limit, hl, hv, hu⟩ := h
  simp [rowOf, anomalyOf, pairs, joinUtilization, hl, hv, hu, hm]

theorem joined_of_not_measured (h : ∀ m q, ¬Measured scope limits util m q) :
    rowOf scope limits util = none ∧
    anomalyOf scope limits util = some ⟨scope, labelsOf util (quotaScope scope).labels, .unpairedSeries⟩ ∧
    pairs scope limits util = none := by
  simp only [rowOf, anomalyOf, pairs, joinUtilization]
  split
  case h_1 m q hm hu =>
    obtain ⟨limit, hl, hv⟩ := Option.map_eq_some_iff.mp hm
    exact absurd ⟨limit, hl, hv, hu⟩ <| h m q
  case h_2 => simp

theorem measured_cases (scope : QuotaScope) (limits : Dict MetricSample) (util : MetricSample) :
    (∃ m q, Measured scope limits util m q ∧ 0 < m) ∨ (∃ m q, Measured scope limits util m q ∧ m ≤ 0) ∨
      ∀ m q, ¬Measured scope limits util m q := by
  by_cases h : ∃ m q, Measured scope limits util m q
  · obtain ⟨m, q, h⟩ := h
    obtain hm | hm := lt_or_ge 0 m
    · exact .inl ⟨m, q, h, hm⟩
    · exact .inr <| .inl ⟨m, q, h, hm⟩
  · exact .inr <| .inr <| by simpa using h

theorem pairs_eq (h : Measured scope limits util m q) :
    pairs scope limits util = some (bucketKey util (quotaScope scope).labels) := by
  obtain hm | hm := lt_or_ge 0 m
  · exact (joined_of_positive h hm).2.2
  · exact (joined_of_not_positive h hm).2.2

theorem exists_measured (h : pairs scope limits util = some key) : ∃ m q, Measured scope limits util m q := by
  by_contra hn
  have hq : ∀ m q, ¬Measured scope limits util m q := by simpa using hn
  simp [(joined_of_not_measured hq).2.2] at h

theorem rowOf_key {row : QuotaRow} (h : rowOf scope limits util = some row) :
    keyOfLabels row.labels (quotaScope scope).labels = bucketKey util (quotaScope scope).labels := by
  obtain ⟨m, q, hm, hp⟩ | ⟨m, q, hm, hp⟩ | hm := measured_cases scope limits util
  · obtain ⟨⟨row', hr, hl, -⟩, -⟩ := joined_of_positive hm hp
    obtain rfl := Option.some.inj <| hr.symm.trans h
    rw [hl, keyOfLabels_labelsOf]
  · simp [(joined_of_not_positive hm hp).1] at h
  · simp [(joined_of_not_measured hm).1] at h

theorem anomalyOf_key {anomaly : QuotaAnomaly} (h : anomalyOf scope limits util = some anomaly) :
    keyOfLabels anomaly.labels (quotaScope scope).labels = bucketKey util (quotaScope scope).labels := by
  obtain ⟨m, q, hm, hp⟩ | ⟨m, q, hm, hp⟩ | hm := measured_cases scope limits util
  · simp [(joined_of_positive hm hp).2.1] at h
  · obtain rfl := Option.some.inj <| (joined_of_not_positive hm hp).2.1.symm.trans h
    exact keyOfLabels_labelsOf
  · obtain rfl := Option.some.inj <| (joined_of_not_measured hm).2.1.symm.trans h
    exact keyOfLabels_labelsOf

end Join

section Headroom

variable {m q x : ℚ}

-- The side of zero that a number is on.
def Value.side : Value → Option SignType
  | .finite q          => some <| SignType.sign q
  | .infinity negative => some <| if negative then -1 else 1
  | .nan               => none

theorem ofRat_of_le (h : |x| ≤ 2 ^ (-1075 : ℤ)) : Value.ofRat x = .finite 0 := by
  rw [Value.ofRat, JsNumber.nearestDouble_of_le h]

-- A sign that is not that of zero is read off a number, be it finite or not.
theorem side_infinity (h : x ≠ 0) : (Value.infinity (x < 0)).side = some (SignType.sign x) := by
  obtain hx | hx := lt_or_gt_of_ne h
  · simp [Value.side, hx]
  · simp [Value.side, hx, hx.not_gt]

theorem side_ofRat (h : 2 ^ (-1075 : ℤ) < |x|) : (Value.ofRat x).side = some (SignType.sign x) := by
  rw [Value.ofRat]
  split
  case h_1 v hv => rw [Value.side, JsNumber.sign_nearestDouble h hv]
  case h_2      =>
    refine side_infinity fun hx => ?_
    rw [hx, abs_zero] at h
    exact h.not_ge (zpow_pos two_pos _).le

-- The headroom is rounded to zero, though the utilization is not 1.
def Underflows (m q : ℚ) : Prop :=
  q ≠ 1 ∧ ∃ v, JsNumber.nearestDouble (1 - q) = some v ∧ |m * v| ≤ 2 ^ (-1075 : ℤ)

theorem side_of_underflows (h : Underflows m q) : (headroom m q).side = some 0 := by
  obtain ⟨-, v, hv, hz⟩ := h
  rw [headroom, Value.ofRat, hv, Value.mul, ofRat_of_le hz, Value.side, sign_zero]

theorem side_of_not_underflows (hm : 0 < m) (h : ¬Underflows m q) :
    (headroom m q).side = some (SignType.sign (1 - q)) := by
  by_cases hq : q = 1
  · have hz : |(0 : ℚ)| ≤ 2 ^ (-1075 : ℤ) := by
      rw [abs_zero]
      exact (zpow_pos two_pos _).le
    rw [headroom, hq, sub_self, ofRat_of_le hz, Value.mul, mul_zero, ofRat_of_le hz, Value.side]
  · have hs : 1 - q ≠ 0 := sub_ne_zero.mpr <| Ne.symm hq
    cases hv : JsNumber.nearestDouble (1 - q)
    case none =>
      rw [headroom, Value.ofRat, hv, Value.mul, if_neg hm.ne', decide_eq_false hm.not_gt, Bool.bne_false]
      exact side_infinity hs
    case some v =>
      have hp : 2 ^ (-1075 : ℤ) < |m * v| := not_le.mp fun hle => h ⟨hq, v, hv, hle⟩
      have hl : 2 ^ (-1075 : ℤ) < |1 - q| := by
        by_contra hle
        obtain rfl := Option.some.inj <| hv.symm.trans <| JsNumber.nearestDouble_of_le <| not_lt.mp hle
        rw [mul_zero, abs_zero] at hp
        exact hp.not_ge (zpow_pos two_pos _).le
      rw [headroom, Value.ofRat, hv, Value.mul, side_ofRat hp, sign_mul, sign_pos hm, one_mul,
        JsNumber.sign_nearestDouble hl hv]

end Headroom

section Reading

def utilSamples (snapshot : MetricsSnapshot) (scope : QuotaScope) : List MetricSample :=
  selectSamples snapshot (quotaScope scope).utilization

def limitSamples (snapshot : MetricsSnapshot) (scope : QuotaScope) : List MetricSample :=
  selectSamples snapshot (quotaScope scope).limit

def keyIn (scope : QuotaScope) (s : MetricSample) : String :=
  bucketKey s (quotaScope scope).labels

def limitsOf (snapshot : MetricsSnapshot) (scope : QuotaScope) : Dict MetricSample :=
  .ofList <| (limitSamples snapshot scope).map fun s => (keyIn scope s, s)

def pairedKeys (snapshot : MetricsSnapshot) (scope : QuotaScope) : List String :=
  (utilSamples snapshot scope).filterMap (pairs scope <| limitsOf snapshot scope)

def aloneOf (snapshot : MetricsSnapshot) (scope : QuotaScope) (limit : MetricSample) : Option QuotaAnomaly :=
  if keyIn scope limit ∈ pairedKeys snapshot scope then none
  else some ⟨scope, labelsOf limit (quotaScope scope).labels, .unpairedSeries⟩

theorem limitsOf_entries (h : ((limitSamples snapshot scope).map (keyIn scope)).Nodup) :
    (limitsOf snapshot scope).entries = (limitSamples snapshot scope).map fun s => (keyIn scope s, s) :=
  Dict.entries_ofList <| by simpa [List.map_map, Function.comp_def] using h

theorem readQuotaScope_eq (hf : snapshot.failure = none)
    (hl : ((limitSamples snapshot scope).map (keyIn scope)).Nodup) :
    (readQuotaScope (some snapshot) scope).rows =
      (utilSamples snapshot scope).filterMap (rowOf scope <| limitsOf snapshot scope) ∧
    (readQuotaScope (some snapshot) scope).anomalies =
      (utilSamples snapshot scope).filterMap (anomalyOf scope <| limitsOf snapshot scope) ++
        (limitSamples snapshot scope).filterMap (aloneOf snapshot scope) := by
  simp only [readQuotaScope, hf, Option.isSome_none, Bool.false_eq_true, if_false]
  split
  case isTrue h =>
    rw [Bool.and_eq_true, Option.isNone_iff_eq_none, Option.isNone_iff_eq_none] at h
    have hu : utilSamples snapshot scope = [] := by simp [utilSamples, selectSamples, h.1]
    have hn : limitSamples snapshot scope = [] := by simp [limitSamples, selectSamples, h.2]
    simp [hu, hn]
  case isFalse =>
    have hj := foldl_joinUtilization scope (limitsOf snapshot scope) (utilSamples snapshot scope)
    have he := limitsOf_entries hl
    have ha : (limitsOf snapshot scope).entries.filterMap (fun e =>
        if e.1 ∈ pairedKeys snapshot scope then none
        else some ⟨scope, labelsOf e.2 (quotaScope scope).labels, .unpairedSeries⟩) =
          (limitSamples snapshot scope).filterMap (aloneOf snapshot scope) := by
      rw [he, List.filterMap_map]
      rfl
    simp only [limitsOf, limitSamples, utilSamples, keyIn, pairedKeys] at hj ha ⊢
    rw [hj]
    exact ⟨rfl, congrArg (_ ++ ·) ha⟩

variable {key : String} {util limit : MetricSample}

def rowsAt (snapshot : MetricsSnapshot) (scope : QuotaScope) (key : String) : List QuotaRow :=
  (readQuotaScope (some snapshot) scope).rows.filter fun row =>
    keyOfLabels row.labels (quotaScope scope).labels = key

def anomaliesAt (snapshot : MetricsSnapshot) (scope : QuotaScope) (key : String) : List QuotaAnomaly :=
  (readQuotaScope (some snapshot) scope).anomalies.filter fun anomaly =>
    keyOfLabels anomaly.labels (quotaScope scope).labels = key

theorem aloneOf_key {anomaly : QuotaAnomaly} (h : aloneOf snapshot scope limit = some anomaly) :
    keyOfLabels anomaly.labels (quotaScope scope).labels = keyIn scope limit := by
  rw [aloneOf] at h
  split at h
  case isTrue  => cases h
  case isFalse => exact (Option.some.inj h) ▸ keyOfLabels_labelsOf

-- What is told of a key is told of the samples with it.
theorem at_eq (key : String) (hf : snapshot.failure = none)
    (hl : ((limitSamples snapshot scope).map (keyIn scope)).Nodup) :
    rowsAt snapshot scope key = ((utilSamples snapshot scope).filter (keyIn scope · = key)).filterMap
      (rowOf scope <| limitsOf snapshot scope) ∧
    anomaliesAt snapshot scope key = ((utilSamples snapshot scope).filter (keyIn scope · = key)).filterMap
      (anomalyOf scope <| limitsOf snapshot scope) ++
        ((limitSamples snapshot scope).filter (keyIn scope · = key)).filterMap (aloneOf snapshot scope) := by
  obtain ⟨hr, ha⟩ := readQuotaScope_eq hf hl
  rw [rowsAt, anomaliesAt, hr, ha, List.filter_append]
  exact ⟨filter_filterMap fun _ _ => rowOf_key,
    congrArg₂ _ (filter_filterMap fun _ _ => anomalyOf_key) (filter_filterMap fun _ _ => aloneOf_key)⟩

theorem get?_limitsOf (hl : ((limitSamples snapshot scope).map (keyIn scope)).Nodup) :
    (limitsOf snapshot scope).get? key = some limit ↔ limit ∈ limitSamples snapshot scope ∧ keyIn scope limit = key := by
  rw [Dict.get?_eq_some_iff, limitsOf_entries hl, List.mem_map]
  constructor
  case mp =>
    rintro ⟨s, hs, he⟩
    obtain ⟨rfl, rfl⟩ := Prod.mk.inj he
    exact ⟨hs, rfl⟩
  case mpr => exact fun ⟨hm, hk⟩ => ⟨limit, hm, by rw [hk]⟩

-- No bucket stands twice in one of the families.
structure Distinct (snapshot : MetricsSnapshot) (scope : QuotaScope) : Prop where
  utils  : ((utilSamples snapshot scope).map (keyIn scope)).Nodup
  limits : ((limitSamples snapshot scope).map (keyIn scope)).Nodup

theorem measured_iff (hd : Distinct snapshot scope) {m q : ℚ} :
    Measured scope (limitsOf snapshot scope) util m q ↔ ∃ limit ∈ limitSamples snapshot scope,
      keyIn scope limit = keyIn scope util ∧ limit.value = .finite m ∧ util.value = .finite q := by
  simp only [Measured]
  refine exists_congr fun limit => ?_
  rw [← keyIn, get?_limitsOf hd.limits, and_assoc]

theorem mem_pairedKeys (hd : Distinct snapshot scope) (hu : util ∈ utilSamples snapshot scope) :
    keyIn scope util ∈ pairedKeys snapshot scope ↔ ∃ m q, Measured scope (limitsOf snapshot scope) util m q := by
  rw [pairedKeys, List.mem_filterMap]
  constructor
  case mp =>
    rintro ⟨u, hm, hp⟩
    obtain ⟨m, q, hq⟩ := exists_measured hp
    have hk : keyIn scope u = keyIn scope util := Option.some.inj <| (pairs_eq hq).symm.trans hp
    obtain rfl := List.inj_on_of_nodup_map hd.utils hm hu hk
    exact ⟨m, q, hq⟩
  case mpr => exact fun ⟨_, _, hq⟩ => ⟨util, hu, pairs_eq hq⟩

theorem mem_utils_of_paired (h : key ∈ pairedKeys snapshot scope) :
    key ∈ (utilSamples snapshot scope).map (keyIn scope) := by
  obtain ⟨util, hm, hp⟩ := List.mem_filterMap.mp h
  obtain ⟨m, q, hq⟩ := exists_measured hp
  exact List.mem_map.mpr ⟨util, hm, Option.some.inj <| (pairs_eq hq).symm.trans hp⟩

end Reading

section Account

-- The anomalies of a key that only its limit accounts for.
def aloneAt (snapshot : MetricsSnapshot) (scope : QuotaScope) (key : String) : List QuotaAnomaly :=
  ((limitSamples snapshot scope).filter (keyIn scope · = key)).filterMap (aloneOf snapshot scope)

theorem at_util (hf : snapshot.failure = none) (hd : Distinct snapshot scope)
    (hu : util ∈ utilSamples snapshot scope) :
    rowsAt snapshot scope (keyIn scope util) = (rowOf scope (limitsOf snapshot scope) util).toList ∧
    anomaliesAt snapshot scope (keyIn scope util) =
      (anomalyOf scope (limitsOf snapshot scope) util).toList ++ aloneAt snapshot scope (keyIn scope util) := by
  obtain ⟨hr, ha⟩ := at_eq (keyIn scope util) hf hd.limits
  rw [hr, ha, filter_of_mem hd.utils hu, aloneAt]
  refine ⟨?_, congrArg (· ++ _) ?_⟩
  · cases h : rowOf scope (limitsOf snapshot scope) util <;> simp [h]
  · cases h : anomalyOf scope (limitsOf snapshot scope) util <;> simp [h]

theorem at_no_util (hf : snapshot.failure = none) (hd : Distinct snapshot scope)
    (hk : key ∉ (utilSamples snapshot scope).map (keyIn scope)) :
    rowsAt snapshot scope key = [] ∧ anomaliesAt snapshot scope key = aloneAt snapshot scope key := by
  obtain ⟨hr, ha⟩ := at_eq key hf hd.limits
  rw [hr, ha, filter_of_not_mem hk, aloneAt]
  exact ⟨rfl, rfl⟩

theorem aloneAt_of_paired (h : key ∈ pairedKeys snapshot scope) : aloneAt snapshot scope key = [] := by
  refine List.filterMap_eq_nil_iff.mpr fun limit hm => ?_
  have hk : keyIn scope limit = key := by simpa using (List.mem_filter.mp hm).2
  rw [aloneOf, hk, if_pos h]

theorem aloneAt_of_no_limit (h : key ∉ (limitSamples snapshot scope).map (keyIn scope)) :
    aloneAt snapshot scope key = [] := by
  rw [aloneAt, filter_of_not_mem h, List.filterMap_nil]

theorem aloneAt_of_limit (hd : Distinct snapshot scope) (hl : limit ∈ limitSamples snapshot scope)
    (h : keyIn scope limit ∉ pairedKeys snapshot scope) :
    (aloneAt snapshot scope (keyIn scope limit)).length = 1 := by
  rw [aloneAt, filter_of_mem hd.limits hl]
  simp [aloneOf, h]

-- The keys of the buckets that one of the two families has.
def bucketKeys (snapshot : MetricsSnapshot) (scope : QuotaScope) : List String :=
  (utilSamples snapshot scope).map (keyIn scope) ++ (limitSamples snapshot scope).map (keyIn scope)

def told (snapshot : MetricsSnapshot) (scope : QuotaScope) (key : String) : Nat :=
  (rowsAt snapshot scope key).length + (anomaliesAt snapshot scope key).length

theorem told_of_measured (hf : snapshot.failure = none) (hd : Distinct snapshot scope)
    (hu : util ∈ utilSamples snapshot scope) {m q : ℚ} (h : Measured scope (limitsOf snapshot scope) util m q) :
    told snapshot scope (keyIn scope util) = 1 := by
  obtain ⟨hr, ha⟩ := at_util hf hd hu
  have hn := aloneAt_of_paired <| (mem_pairedKeys hd hu).mpr ⟨m, q, h⟩
  rw [told, hr, ha, hn]
  obtain hm | hm := lt_or_ge 0 m
  · obtain ⟨⟨row, ho, -⟩, hnone, -⟩ := joined_of_positive h hm
    simp [ho, hnone]
  · obtain ⟨hnone, ho, -⟩ := joined_of_not_positive h hm
    simp [ho, hnone]

theorem told_of_not_measured (hf : snapshot.failure = none) (hd : Distinct snapshot scope)
    (hu : util ∈ utilSamples snapshot scope) (h : ∀ m q, ¬Measured scope (limitsOf snapshot scope) util m q) :
    told snapshot scope (keyIn scope util) = 1 + (aloneAt snapshot scope (keyIn scope util)).length := by
  obtain ⟨hr, ha⟩ := at_util hf hd hu
  obtain ⟨hnone, ho, -⟩ := joined_of_not_measured h
  rw [told, hr, ha, hnone, ho]
  simp [Nat.add_comm]

theorem told_of_no_util (hf : snapshot.failure = none) (hd : Distinct snapshot scope)
    (hl : limit ∈ limitSamples snapshot scope)
    (hk : keyIn scope limit ∉ (utilSamples snapshot scope).map (keyIn scope)) :
    told snapshot scope (keyIn scope limit) = 1 := by
  obtain ⟨hr, ha⟩ := at_no_util hf hd hk
  rw [told, hr, ha, aloneAt_of_limit hd hl (mt mem_utils_of_paired hk), List.length_nil]

-- Both sides of a bucket are finite wherever there are both.
def FinitePairs (snapshot : MetricsSnapshot) (scope : QuotaScope) : Prop :=
  ∀ util ∈ utilSamples snapshot scope, ∀ limit ∈ limitSamples snapshot scope,
    keyIn scope limit = keyIn scope util → limit.value.isFinite = true ∧ util.value.isFinite = true

theorem Value.isFinite_iff {v : Value} : v.isFinite = true ↔ ∃ q, v = .finite q := by
  cases v <;> simp [Value.isFinite]

theorem told_iff (hf : snapshot.failure = none) (hd : Distinct snapshot scope) :
    (∀ key ∈ bucketKeys snapshot scope, told snapshot scope key = 1) ↔ FinitePairs snapshot scope := by
  constructor
  case mp =>
    intro h util hu limit hl hk
    have ht := h (keyIn scope util) <| List.mem_append_left _ <| List.mem_map.mpr ⟨util, hu, rfl⟩
    by_cases hq : ∃ m q, Measured scope (limitsOf snapshot scope) util m q
    · obtain ⟨m, q, hq⟩ := hq
      obtain ⟨l, hm, he, hv, hw⟩ := (measured_iff hd).mp hq
      obtain rfl := List.inj_on_of_nodup_map hd.limits hm hl (he.trans hk.symm)
      exact ⟨Value.isFinite_iff.mpr ⟨m, hv⟩, Value.isFinite_iff.mpr ⟨q, hw⟩⟩
    · have hp := hk ▸ mt (mem_pairedKeys hd hu).mp hq
      rw [told_of_not_measured hf hd hu (by simpa using hq), ← hk, aloneAt_of_limit hd hl hp] at ht
      contradiction
  case mpr =>
    intro h key hk
    by_cases hu : key ∈ (utilSamples snapshot scope).map (keyIn scope)
    · obtain ⟨util, hm, rfl⟩ := List.mem_map.mp hu
      by_cases hq : ∃ m q, Measured scope (limitsOf snapshot scope) util m q
      · obtain ⟨m, q, hq⟩ := hq
        exact told_of_measured hf hd hm hq
      · rw [told_of_not_measured hf hd hm (by simpa using hq), aloneAt_of_no_limit, List.length_nil]
        intro hl
        obtain ⟨limit, hl, he⟩ := List.mem_map.mp hl
        obtain ⟨hv, hw⟩ := h util hm limit hl he
        obtain ⟨m, hv⟩ := Value.isFinite_iff.mp hv
        obtain ⟨q, hw⟩ := Value.isFinite_iff.mp hw
        exact hq ⟨m, q, (measured_iff hd).mpr ⟨limit, hl, he, hv, hw⟩⟩
    · obtain ⟨limit, hl, rfl⟩ := List.mem_map.mp <| (List.mem_append.mp hk).resolve_left hu
      exact told_of_no_util hf hd hl hu

theorem nothing_told (hf : snapshot.failure = none) (hd : Distinct snapshot scope)
    (hk : key ∉ bucketKeys snapshot scope) :
    rowsAt snapshot scope key = [] ∧ anomaliesAt snapshot scope key = [] := by
  obtain ⟨hu, hl⟩ := not_or.mp <| mt List.mem_append.mpr hk
  obtain ⟨hr, ha⟩ := at_no_util hf hd hu
  exact ⟨hr, ha.trans <| aloneAt_of_no_limit hl⟩

-- Both sides are there, both are finite, and the limit is positive.
def Usable (snapshot : MetricsSnapshot) (scope : QuotaScope) (key : String) : Prop :=
  ∃ util ∈ utilSamples snapshot scope, ∃ limit ∈ limitSamples snapshot scope,
    keyIn scope util = key ∧ keyIn scope limit = key ∧
    ∃ m q, limit.value = .finite m ∧ util.value = .finite q ∧ 0 < m

theorem row_iff (hf : snapshot.failure = none) (hd : Distinct snapshot scope) :
    rowsAt snapshot scope key ≠ [] ↔ Usable snapshot scope key := by
  constructor
  case mp =>
    intro h
    by_cases hk : key ∈ (utilSamples snapshot scope).map (keyIn scope)
    · obtain ⟨util, hu, rfl⟩ := List.mem_map.mp hk
      rw [(at_util hf hd hu).1] at h
      obtain ⟨m, q, hq, hp⟩ | ⟨m, q, hq, hp⟩ | hq := measured_cases scope (limitsOf snapshot scope) util
      · obtain ⟨limit, hl, he, hv, hw⟩ := (measured_iff hd).mp hq
        exact ⟨util, hu, limit, hl, rfl, he, m, q, hv, hw, hp⟩
      · simp [(joined_of_not_positive hq hp).1] at h
      · simp [(joined_of_not_measured hq).1] at h
    · exact absurd (at_no_util hf hd hk).1 h
  case mpr =>
    rintro ⟨util, hu, limit, hl, rfl, he, m, q, hv, hw, hp⟩
    obtain ⟨⟨row, ho, -⟩, -⟩ := joined_of_positive ((measured_iff hd).mpr ⟨limit, hl, he, hv, hw⟩) hp
    simp [(at_util hf hd hu).1, ho]

-- The headroom is on the side of zero that the pressure says.
def HeadroomAgrees (row : QuotaRow) : Prop :=
  (row.headroomTokens.side = some (-1) ↔ row.pressure = .inDebt) ∧
    (row.headroomTokens.side = some 0 ↔ row.pressure = .saturated) ∧
    (row.headroomTokens.side = some 1 ↔ row.pressure = .within)

variable {m q : ℚ}

theorem headroomAgrees_iff {row : QuotaRow} (hm : 0 < m) (hh : row.headroomTokens = headroom m q)
    (hp : row.pressure = quotaPressure q) : HeadroomAgrees row ↔ ¬Underflows m q := by
  rw [HeadroomAgrees, hh, hp, quotaPressure]
  constructor
  case mp =>
    intro ⟨_, h, _⟩ hu
    have hs := h.mp <| side_of_underflows hu
    obtain hq | hq := lt_or_gt_of_ne hu.1
    · simp [hq.not_gt, hq.not_ge] at hs
    · simp [hq] at hs
  case mpr =>
    intro hn
    rw [side_of_not_underflows hm hn]
    obtain hq | rfl | hq := lt_trichotomy q 1
    · simp [hq.not_gt, hq.not_ge, sign_pos <| sub_pos.mpr hq]
    · simp
    · simp [hq, sign_neg <| sub_neg.mpr hq]

-- The headroom of no bucket is rounded to zero.
def NoUnderflow (snapshot : MetricsSnapshot) (scope : QuotaScope) : Prop :=
  ∀ util ∈ utilSamples snapshot scope, ∀ limit ∈ limitSamples snapshot scope, keyIn scope limit = keyIn scope util →
    ∀ m q, limit.value = .finite m → util.value = .finite q → 0 < m → ¬Underflows m q

theorem headrooms_agree_iff (hf : snapshot.failure = none) (hd : Distinct snapshot scope) :
    (∀ row ∈ (readQuotaScope (some snapshot) scope).rows, HeadroomAgrees row) ↔ NoUnderflow snapshot scope := by
  rw [(readQuotaScope_eq hf hd.limits).1]
  constructor
  case mp =>
    intro h util hu limit hl hk m q hv hw hp
    obtain ⟨⟨row, ho, -, -, -, hh, hr⟩, -⟩ := joined_of_positive ((measured_iff hd).mpr ⟨limit, hl, hk, hv, hw⟩) hp
    exact (headroomAgrees_iff hp hh hr).mp <| h row <| List.mem_filterMap.mpr ⟨util, hu, ho⟩
  case mpr =>
    intro h row hr
    obtain ⟨util, hu, ho⟩ := List.mem_filterMap.mp hr
    obtain ⟨m, q, hq, hp⟩ | ⟨m, q, hq, hp⟩ | hq := measured_cases scope (limitsOf snapshot scope) util
    · obtain ⟨⟨row', ho', -, -, -, hh, hw⟩, -⟩ := joined_of_positive hq hp
      obtain rfl := Option.some.inj <| ho'.symm.trans ho
      obtain ⟨limit, hl, hk, hv, hu'⟩ := (measured_iff hd).mp hq
      exact (headroomAgrees_iff hp hh hw).mpr <| h util hu limit hl hk m q hv hu' hp
    · simp [(joined_of_not_positive hq hp).1] at ho
    · simp [(joined_of_not_measured hq).1] at ho

-- Of each bucket one thing is told, a row just if both of its sides can be used, and nothing of any other.
structure Accounts (snapshot : MetricsSnapshot) (scope : QuotaScope) : Prop where
  once     : ∀ key ∈ bucketKeys snapshot scope, told snapshot scope key = 1
  others   : ∀ key ∉ bucketKeys snapshot scope, told snapshot scope key = 0
  row      : ∀ key, rowsAt snapshot scope key ≠ [] ↔ Usable snapshot scope key
  headroom : ∀ row ∈ (readQuotaScope (some snapshot) scope).rows, HeadroomAgrees row

-- A scrape that failed tells nothing, whatever it holds.
theorem told_of_failure (scope : QuotaScope) (hf : snapshot.failure.isSome = true) :
    (readQuotaScope (some snapshot) scope).rows = [] ∧ (readQuotaScope (some snapshot) scope).anomalies = [] := by
  simp [readQuotaScope, hf]

theorem accounts_iff_of_failure (hf : snapshot.failure.isSome = true) :
    Accounts snapshot scope ↔ bucketKeys snapshot scope = [] := by
  obtain ⟨hr, ha⟩ := told_of_failure scope hf
  have ht : ∀ key, told snapshot scope key = 0 := fun key => by simp [told, rowsAt, anomaliesAt, hr, ha]
  constructor
  case mp =>
    intro h
    refine List.eq_nil_iff_forall_not_mem.mpr fun key hk => ?_
    simpa [ht] using h.once key hk
  case mpr =>
    intro h
    refine ⟨by simp [h], fun key _ => ht key, fun key => ?_, by simp [hr]⟩
    refine iff_of_false (by simp [rowsAt, hr]) ?_
    rintro ⟨util, hu, -⟩
    have hk : keyIn scope util ∈ bucketKeys snapshot scope :=
      List.mem_append_left _ <| List.mem_map.mpr ⟨util, hu, rfl⟩
    simp [h] at hk

theorem readQuotaScope_accounts_iff (hd : Distinct snapshot scope) :
    Accounts snapshot scope ↔ FinitePairs snapshot scope ∧ NoUnderflow snapshot scope ∧
      (snapshot.failure = none ∨ bucketKeys snapshot scope = []) := by
  cases hf : snapshot.failure
  case none =>
    constructor
    case mp  => exact fun h => ⟨(told_iff hf hd).mp h.once, (headrooms_agree_iff hf hd).mp h.headroom, .inl rfl⟩
    case mpr =>
      rintro ⟨hp, hu, -⟩
      refine ⟨(told_iff hf hd).mpr hp, fun key hk => ?_, fun _ => row_iff hf hd, (headrooms_agree_iff hf hd).mpr hu⟩
      obtain ⟨hr, ha⟩ := nothing_told hf hd hk
      simp [told, hr, ha]
  case some e =>
    rw [accounts_iff_of_failure (by simp [hf])]
    constructor
    case mp =>
      intro h
      have hu : ∀ util, util ∉ utilSamples snapshot scope := fun util hu => by
        have hk : keyIn scope util ∈ bucketKeys snapshot scope :=
          List.mem_append_left _ <| List.mem_map.mpr ⟨util, hu, rfl⟩
        simp [h] at hk
      exact ⟨fun util hm => absurd hm <| hu util, fun util hm => absurd hm <| hu util, .inr h⟩
    case mpr => exact fun h => h.2.2.resolve_left (by simp)

-- A scrape with the buckets of tenants.
def quotaScrape (utils limits : List (String × Value)) : MetricsSnapshot where
  receivedAtMs := 0
  available    := true
  failure      := none
  families     := .ofList [
    ("loxilb_ai_token_quota_utilization",  family "loxilb_ai_token_quota_utilization" utils),
    ("loxilb_ai_token_quota_limit_tokens", family "loxilb_ai_token_quota_limit_tokens" limits)]
where
  family (name : String) (buckets : List (String × Value)) : MetricFamily :=
    ⟨name, buckets.map fun (tenant, value) => ⟨name, .ofList [("tenant", tenant)], value⟩⟩

theorem keys_family {name : String} {buckets : List (String × Value)} :
    (quotaScrape.family name buckets).samples.map (keyIn .tenant) = buckets.map Prod.fst := by
  rw [quotaScrape.family, List.map_map]
  rfl

theorem quotaScrape_distinct {utils limits : List (String × Value)} (hu : (utils.map Prod.fst).Nodup)
    (hl : (limits.map Prod.fst).Nodup) : Distinct (quotaScrape utils limits) .tenant :=
  ⟨keys_family ▸ hu, keys_family ▸ hl⟩

theorem mem_family {name : String} {buckets : List (String × Value)}
    (h : s ∈ (quotaScrape.family name buckets).samples) : ∃ b ∈ buckets, s.value = b.2 := by
  obtain ⟨b, hb, rfl⟩ := List.mem_map.mp h
  exact ⟨b, hb, rfl⟩

theorem quotaScrape_finitePairs {utils limits : List (String × Value)} (hu : ∀ b ∈ utils, b.2.isFinite = true)
    (hl : ∀ b ∈ limits, b.2.isFinite = true) : FinitePairs (quotaScrape utils limits) .tenant := by
  intro util hm limit hm' _
  obtain ⟨b, hb, hv⟩ := mem_family hm
  obtain ⟨b', hb', hv'⟩ := mem_family hm'
  exact ⟨hv' ▸ hl b' hb', hv ▸ hu b hb⟩

theorem not_underflows_of_le {v : ℚ} (hv : JsNumber.nearestDouble (1 - q) = some v) (h : 1 / 4 ≤ |v|) (hm : 1 ≤ m) :
    ¬Underflows m q := by
  rintro ⟨-, w, hw, hle⟩
  obtain rfl := Option.some.inj <| hv.symm.trans hw
  have hp : (2 : ℚ) ^ (-1075 : ℤ) < 2 ^ (-2 : ℤ) := zpow_lt_zpow_right₀ one_lt_two <| by decide
  have hq : (2 : ℚ) ^ (-2 : ℤ) = 1 / 4 := by norm_num
  have hl : |v| ≤ m * |v| := le_mul_of_one_le_left (abs_nonneg v) hm
  rw [abs_mul, abs_of_pos <| one_pos.trans_le hm] at hle
  exact (h.trans hl).not_gt <| hle.trans_lt <| hp.trans_eq hq

-- One bucket in debt, one that is full, one whose limit is no limit, one without a limit and one without a utilization.
theorem severalBuckets_accounts : Accounts (quotaScrape
    [("a", .finite <| 5 / 4), ("b", .finite 1), ("c", .finite <| 1 / 2), ("d", .finite 0)]
    [("a", .finite 10), ("b", .finite 20), ("c", .finite 0), ("e", .finite 30)]) .tenant := by
  refine (readQuotaScope_accounts_iff <| quotaScrape_distinct (by decide) (by decide)).mpr
    ⟨quotaScrape_finitePairs ?_ ?_, ?_, .inl rfl⟩
  · simp [Value.isFinite]
  · simp [Value.isFinite]
  · intro util hu limit hl _ m q hv hw hp
    obtain ⟨b, hb, hb'⟩ := mem_family hu
    obtain ⟨l, hl, hl'⟩ := mem_family hl
    have hm : 1 ≤ m := by
      rw [hl'] at hv
      simp only [List.mem_cons, List.not_mem_nil, or_false] at hl
      rcases hl with rfl | rfl | rfl | rfl <;> obtain rfl := Value.finite.inj hv <;> linarith
    rw [hb'] at hw
    simp only [List.mem_cons, List.not_mem_nil, or_false] at hb
    rcases hb with rfl | rfl | rfl | rfl <;> obtain rfl := Value.finite.inj hw
    · exact not_underflows_of_le (v := -1 / 4) (by decide +kernel) (by norm_num) hm
    · exact fun hn => hn.1 rfl
    · exact not_underflows_of_le (v := 1 / 2) (by decide +kernel) (by norm_num) hm
    · exact not_underflows_of_le (v := 1) (by decide +kernel) (by norm_num) hm

-- Of a bucket whose utilization is not a number two things are told: that of the utilization and that of
-- the limit.
theorem not_accounts : ¬∀ snapshot scope, Distinct snapshot scope → Accounts snapshot scope := by
  intro h
  have hd : Distinct (quotaScrape [("a", .nan)] [("a", .finite 100)]) .tenant :=
    ⟨List.nodup_singleton _, List.nodup_singleton _⟩
  have hp := (told_iff rfl hd).mp (h _ _ hd).once
  exact absurd (hp _ (List.mem_singleton_self _) _ (List.mem_singleton_self _) rfl).2 Bool.false_ne_true

end Account

end Observability
