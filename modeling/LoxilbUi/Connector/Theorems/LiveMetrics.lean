import LoxilbUi.Connector.Metrics
import LoxilbUi.Observability.Theorems.FlatSums

-- What the cards read under a canonical name, whichever names the instance publishes.

namespace Metrics

open Capabilities Observability

variable {metrics : Dict Flat} {table : List (String × String)} {names : String × String} {name : String}
variable {snapshot : MetricsSnapshot} {flavor : InstanceFlavor} {v : Flat}

-- A name of the tables is no name that an object inherits.
def Plain (name : String) : Prop :=
  name ∉ PlainObject.members

theorem Plain.ne_proto (h : Plain name) : name ≠ "__proto__" := by
  rintro rfl
  exact h (by decide)

theorem read_plain (h : Plain name) : PlainObject.read metrics name =
    match metrics.get? name with
    | some v => .own v
    | none   => .absent := by
  cases hg : metrics.get? name
  case none   => rw [PlainObject.read_of_get?_none hg, if_neg h]
  case some v => rw [PlainObject.read_eq_own_iff.mpr hg]

theorem get?_normalizeName (hc : Plain names.1) (hb : Plain names.2) : (normalizeName metrics names).get? name =
    if name = names.1 then (metrics.get? names.1).or (metrics.get? names.2) else metrics.get? name := by
  rw [normalizeName, read_plain hc, read_plain hb]
  cases h₁ : metrics.get? names.1 <;> cases h₂ : metrics.get? names.2
  case none.some v =>
    rw [PlainObject.get?_assign]
    simp [hc.ne_proto]
  all_goals
    by_cases h : name = names.1 <;> simp [h, h₁]

-- What a table must be for its entries not to disturb each other.
structure Independent (table : List (String × String)) : Prop where
  nodup     : (table.map Prod.fst).Nodup
  apart     : ∀ names ∈ table, names.2 ∉ table.map Prod.fst
  canonical : ∀ names ∈ table, Plain names.1
  backend   : ∀ names ∈ table, Plain names.2

theorem Independent.tail (h : Independent (names :: table)) : Independent table where
  nodup          := (List.nodup_cons.mp h.nodup).2
  apart n hn hm  := h.apart n (List.mem_cons_of_mem _ hn) <| List.mem_cons_of_mem _ hm
  canonical n hn := h.canonical n <| List.mem_cons_of_mem _ hn
  backend n hn   := h.backend n <| List.mem_cons_of_mem _ hn

-- The own value of a name, and else that of its alias in a table.
def resolve (table : List (String × String)) (values : String → Option Flat) (name : String) : Option Flat :=
  (values name).or <| (table.lookup name).bind values

theorem get?_normalize (h : Independent table) :
    (table.foldl normalizeName metrics).get? name = resolve table metrics.get? name := by
  induction table generalizing metrics
  case nil => rw [resolve, List.lookup_nil, Option.bind_none, Option.or_none, List.foldl_nil]
  case cons names table hi =>
    obtain ⟨canonical, backend⟩ := names
    have hn (name : String) := @get?_normalizeName metrics (canonical, backend) name
      (h.canonical _ List.mem_cons_self) (h.backend _ List.mem_cons_self)
    rw [List.foldl_cons, hi h.tail, resolve, resolve, Dict.lookup_cons, hn]
    by_cases he : name = canonical
    case pos =>
      have hl : table.lookup name = none := Dict.lookup_eq_none <| he ▸ (List.nodup_cons.mp h.nodup).1
      rw [if_pos he, if_pos he, hl, Option.bind_none, Option.or_none, Option.bind_some, he]
    case neg =>
      rw [if_neg he, if_neg he]
      cases hl : table.lookup name
      case none   => rfl
      case some b =>
        have hb : b ≠ canonical := by
          rintro rfl
          exact h.apart _ (List.mem_cons_of_mem _ <| Dict.mem_of_lookup hl) List.mem_cons_self
        rw [Option.bind_some, Option.bind_some, hn, if_neg hb]

-- A second pass finds nothing to add.
theorem resolve_resolve (h : Independent table) {values : String → Option Flat} :
    resolve table (resolve table values) name = resolve table values name := by
  cases hl : table.lookup name
  case none   => simp [resolve, hl]
  case some b =>
    have hb : table.lookup b = none := Dict.lookup_eq_none <| h.apart _ <| Dict.mem_of_lookup hl
    cases hn : values name <;> simp [resolve, hl, hb, hn]

theorem independent (flavor : InstanceFlavor) : Independent (aliasesByFlavor flavor) := by
  cases flavor <;> exact ⟨by decide, by decide, by unfold Plain; decide, by unfold Plain; decide⟩

theorem flatOf_isSome {parts : List ℚ} : (flatOf name parts).isSome = true ↔ parts ≠ [] ∧ name ≠ "__proto__" := by
  by_cases hl : parts = []
  · simp [flatOf, hl]
  · by_cases hp : name = "__proto__"
    · simp [flatOf, hp]
    · by_cases hm : name ∈ PlainObject.members <;> simp [flatOf, hl, hp, hm]

theorem size_pos_iff : metrics.size > 0 ↔ ∃ name, (metrics.get? name).isSome = true := by
  obtain ⟨entries, hn⟩ := metrics
  cases entries
  case nil => simp [Dict.size, Dict.get?]
  case cons p l =>
    obtain ⟨k, v⟩ := p
    simp only [Dict.size, List.length_cons, gt_iff_lt, Nat.zero_lt_succ, true_iff]
    exact ⟨k, by rw [Dict.get?, Dict.lookup_cons, if_pos rfl, Option.isSome_some]⟩

theorem resolve_isSome {values : String → Option Flat} :
    (∃ name, (resolve table values name).isSome = true) ↔ ∃ name, (values name).isSome = true := by
  constructor
  case mp =>
    rintro ⟨name, h⟩
    rw [resolve, Option.isSome_or, Bool.or_eq_true] at h
    rcases h with h | h
    · exact ⟨name, h⟩
    · obtain ⟨b, -, hb⟩ := Option.bind_eq_some_iff.mp (Option.eq_some_of_isSome h)
      exact ⟨b, Option.isSome_of_eq_some hb⟩
  case mpr =>
    rintro ⟨name, h⟩
    exact ⟨name, by rw [resolve, Option.isSome_or, h, Bool.true_or]⟩

theorem get?_critical : (projectLiveMetrics snapshot flavor).critical.get? name =
    resolve (aliasesByFlavor flavor) (fun n => flatOf n (partsNamed (samplesOf snapshot) n)) name := by
  rw [projectLiveMetrics, normalizeMetricNames, get?_normalize (independent flavor), projectFlatSums_eq, resolve, resolve]
  simp only [get?_accumulated]

theorem get?_normalizeMetricNames : (normalizeMetricNames metrics flavor).get? name =
    resolve (aliasesByFlavor flavor) metrics.get? name :=
  get?_normalize (independent flavor)

theorem finite?_isSome {value : Value} : value.finite?.isSome = value.isFinite := by
  cases value <;> rfl

theorem partsNamed_ne_nil_iff {samples : List MetricSample} :
    partsNamed samples name ≠ [] ↔ ∃ s ∈ samples, s.value.isFinite = true ∧ s.name = name := by
  simp only [ne_eq, partsNamed_eq_nil_iff, ← finite?_isSome, Option.isSome_iff_ne_none]
  grind

theorem available_iff : (projectLiveMetrics snapshot flavor).available = true ↔
    ∃ s ∈ samplesOf snapshot, s.value.isFinite = true ∧ s.name ≠ "__proto__" := by
  have hs : (projectLiveMetrics snapshot flavor).available = true ↔
      (projectLiveMetrics snapshot flavor).critical.size > 0 := by
    rw [projectLiveMetrics, decide_eq_true_iff]
  rw [hs, size_pos_iff]
  simp only [get?_critical, resolve_isSome, flatOf_isSome, partsNamed_ne_nil_iff]
  grind

-- No table leads to a name that an object inherits, and of all others the table of sums has the total.
theorem get?_critical_plain (hn : Plain name) : (projectLiveMetrics snapshot flavor).critical.get? name =
    resolve (aliasesByFlavor flavor) (fun n => totalOf <| partsNamed (samplesOf snapshot) n) name := by
  have ht {n} (h : Plain n) : flatOf n (partsNamed (samplesOf snapshot) n) =
      totalOf (partsNamed (samplesOf snapshot) n) := flatOf_eq_iff.mpr (absurd · h)
  rw [get?_critical, resolve, resolve, ht hn]
  cases hl : (aliasesByFlavor flavor).lookup name
  case none   => rfl
  case some b =>
    rw [Option.bind_some, Option.bind_some, ht <| (independent flavor).backend _ <| Dict.mem_of_lookup hl]

-- The cards read the sum of the finite samples with the canonical name, or else of those with the flavor's own
-- name for it, and nothing else: what has no finite sample under either name is absent. Of the names that every
-- object inherits nothing is said.
theorem projectLiveMetrics_resolves :
    (∀ name ∉ PlainObject.members, (projectLiveMetrics snapshot flavor).critical.get? name =
      resolve (aliasesByFlavor flavor) (fun n => totalOf <| partsNamed (samplesOf snapshot) n) name) ∧
    ((projectLiveMetrics snapshot flavor).available = true ↔
      ∃ s ∈ samplesOf snapshot, s.value.isFinite = true ∧ s.name ≠ "__proto__") ∧
    (∀ name, (normalizeMetricNames (projectLiveMetrics snapshot flavor).critical flavor).get? name =
      (projectLiveMetrics snapshot flavor).critical.get? name) := by
  refine ⟨fun _ => get?_critical_plain, available_iff, fun name => ?_⟩
  have hv : (projectLiveMetrics snapshot flavor).critical.get? =
      resolve (aliasesByFlavor flavor) fun n => flatOf n (partsNamed (samplesOf snapshot) n) :=
    funext fun _ => get?_critical
  rw [get?_normalizeMetricNames, hv, resolve_resolve (independent flavor)]

end Metrics
