import LoxilbUi.Observability.PolicerAttachment

-- The verdict on the policers is one on those that the list contains, as long as what lingers in the
-- gauge finds nothing that the list does not.

namespace PolicerAttachment

open Observability

variable {localeCompare : String → String → Ordering} {snapshot : MetricsSnapshot}
variable {policies : List PolicyAttribute} {policy : PolicyAttribute} {metric : Dict Bool}
variable {i : String}

namespace PolicerAttachmentReport

def rows : PolicerAttachmentReport → List PolicerAttachmentRow
  | ok rows .. => rows
  | _          => []

def verdict : PolicerAttachmentReport → Option PolicerAttachmentVerdict
  | ok _ verdict .. => some verdict
  | _               => none

-- The pending policers, the attached ones and those of which nothing is known, together.
def counted : PolicerAttachmentReport → Nat
  | ok _ _ _ _ pending attached unknown => pending + attached + unknown
  | _                                   => 0

end PolicerAttachmentReport

def IsListed (policies : List PolicyAttribute) (i : String) : Prop :=
  i ∈ policies.map (·.policyIdent)

instance : Decidable (IsListed policies i) :=
  inferInstanceAs <| Decidable (i ∈ _)

-- A series without a name stays.
def lingers (policies : List PolicyAttribute) (sample : MetricSample) : Bool :=
  match sample.labels.get? ident with
  | some i => ¬IsListed policies i
  | none   => false

-- The snapshot without the series of policers that are not listed.
def settled (policies : List PolicyAttribute) (snapshot : MetricsSnapshot) : MetricsSnapshot :=
  match snapshot.families.get? policerAttached with
  | none        => snapshot
  | some family => { snapshot with
      families := snapshot.families.set policerAttached { family with
        samples := family.samples.filter (!lingers policies ·)
      }
    }

-- What the row of a policer says.
def RowSays (rows : List PolicerAttachmentRow) (policy : PolicyAttribute) (attached : Bool) : Prop :=
  ∃ row ∈ rows, row.ident = policy.policyIdent ∧ row.attached = some attached

-- What is owed for a snapshot that answered and a list that is not empty.
structure Judges (localeCompare : String → String → Ordering) (snapshot : MetricsSnapshot)
    (policies : List PolicyAttribute) (report : PolicerAttachmentReport) : Prop where
  pending   : report.verdict = some .pendingAttachment ↔ ∃ policy ∈ policies, RowSays report.rows policy false
  attached  : report.verdict = some .allAttached ↔ ∀ policy ∈ policies, RowSays report.rows policy true
  lingering : report.verdict =
    (policerAttachment localeCompare (settled policies snapshot) (some policies)).verdict
  idents    : (report.rows.map (·.ident)).Nodup
  union     : ∀ i, i ∈ report.rows.map (·.ident) ↔
    IsListed policies i ∨ ((metricAttachment snapshot).get? i).isSome
  counted   : report.counted = report.rows.length

section Metric

-- What a series says, and of whom.
def reading (sample : MetricSample) : Option (String × Bool) :=
  match sample.labels.get? ident, sample.value with
  | some i, .finite q => some (i, q ≠ 0)
  | _, _              => none

theorem metricAttachment_eq :
    metricAttachment snapshot = .ofList ((selectSamples snapshot policerAttached).filterMap reading) := by
  rw [metricAttachment]
  induction selectSamples snapshot policerAttached using List.reverseRecOn
  case nil => rfl
  case append_singleton samples s hi =>
    rw [List.foldl_append, hi, List.filterMap_append, List.foldl_cons, List.foldl_nil]
    cases hl : s.labels.get? ident
    case none   => simp [reading, hl]
    case some i => cases hv : s.value <;> simp [reading, hl, hv, Dict.ofList_concat]

theorem get?_metricAttachment : (metricAttachment snapshot).get? i =
    ((selectSamples snapshot policerAttached).filterMap reading).reverse.lookup i := by
  rw [metricAttachment_eq, Dict.get?_ofList]

theorem selectSamples_settled : selectSamples (settled policies snapshot) policerAttached =
    (selectSamples snapshot policerAttached).filter (!lingers policies ·) := by
  simp only [selectSamples, settled]
  cases h : snapshot.families.get? policerAttached
  case none   => simp [h]
  case some f => simp

theorem reading_filter (samples : List MetricSample) :
    (samples.filter (!lingers policies ·)).filterMap reading =
      (samples.filterMap reading).filter fun p => IsListed policies p.1 := by
  induction samples
  case nil => rfl
  case cons s samples hi =>
    cases hl : s.labels.get? ident
    case none =>
      have hr : reading s = none := by simp [reading, hl]
      have hg : lingers policies s = false := by simp [lingers, hl]
      simpa [hr, hg] using hi
    case some i =>
      have hg : lingers policies s = !decide (IsListed policies i) := by simp [lingers, hl]
      have hr : reading s = none ∨ ∃ b, reading s = some (i, b) := by
        cases hv : s.value <;> simp [reading, hl, hv, em]
      obtain hr | ⟨b, hr⟩ := hr <;> by_cases hi' : IsListed policies i <;> simp [hg, hr, hi, hi']

theorem get?_settled : (metricAttachment (settled policies snapshot)).get? i =
    if IsListed policies i then (metricAttachment snapshot).get? i else none := by
  rw [get?_metricAttachment, selectSamples_settled, reading_filter, ← List.filter_reverse,
    Dict.lookup_filter (p := (IsListed policies ·)), get?_metricAttachment]
  simp

end Metric

section Rows

-- What both sources together say of a listed policer.
def stateOf (snapshot : MetricsSnapshot) (policy : PolicyAttribute) : Option Bool :=
  (corroborate ((metricAttachment snapshot).get? policy.policyIdent) policy.attached).1

def rowsOf (localeCompare : String → String → Ordering) (policies : List PolicyAttribute)
    (metric : Dict Bool) : List PolicerAttachmentRow :=
  (unionOf (some policies) metric).map (rowOf (some policies) metric) |>.mergeSort
    (precedes localeCompare)

theorem mem_unionOf :
    i ∈ unionOf (some policies) metric ↔ IsListed policies i ∨ (metric.get? i).isSome = true := by
  rw [unionOf, List.mem_reverse, List.mem_dedup, List.mem_reverse, List.mem_append, Dict.mem_keys_iff,
    Option.isSome_iff_exists]
  exact Iff.rfl

theorem rowOf_ident : (rowOf (some policies) metric i).ident = i :=
  rfl

theorem mem_rowsOf {row : PolicerAttachmentRow} : row ∈ rowsOf localeCompare policies metric ↔
    ∃ i, (IsListed policies i ∨ (metric.get? i).isSome = true) ∧ rowOf (some policies) metric i = row := by
  rw [rowsOf, List.mem_mergeSort, List.mem_map]
  simp only [mem_unionOf]

theorem rowsOf_idents : ((rowsOf localeCompare policies metric).map (·.ident)).Perm
    (unionOf (some policies) metric) := by
  have hp := (List.mergeSort_perm ((unionOf (some policies) metric).map (rowOf (some policies) metric))
    (precedes localeCompare)).map (·.ident)
  simpa [rowsOf, List.map_map, Function.comp_def, rowOf_ident] using hp

theorem rowsOf_nodup : ((rowsOf localeCompare policies metric).map (·.ident)).Nodup := by
  rw [rowsOf_idents.nodup_iff, unionOf, List.nodup_reverse]
  exact List.nodup_dedup _

variable (hn : (policies.map (·.policyIdent)).Nodup)

include hn in
theorem rowOf_listed (hp : policy ∈ policies) :
    (rowOf (some policies) (metricAttachment snapshot) policy.policyIdent).attached =
      stateOf snapshot policy := by
  have hl : LastWrite.last PolicyAttribute.policyIdent policy.policyIdent policies = some policy :=
    (LastWrite.Once.of_nodup hn).last_eq_some_iff.mpr ⟨hp, rfl⟩
  simp [rowOf, stateOf, hl]

theorem rowOf_unlisted (hi : ¬IsListed policies i) :
    (rowOf (some policies) metric i).attached = metric.get? i := by
  have hl : LastWrite.last PolicyAttribute.policyIdent i policies = none :=
    LastWrite.last_eq_none_iff.mpr fun p hp he => hi <| List.mem_map.mpr ⟨p, hp, he⟩
  cases hm : metric.get? i <;> simp [rowOf, corroborate, hl, hm]

include hn in
-- The rows that say something are those of listed policers, and the series that linger.
theorem exists_row_iff {b : Bool} :
    (∃ row ∈ rowsOf localeCompare policies (metricAttachment snapshot), row.attached = some b) ↔
      (∃ policy ∈ policies, stateOf snapshot policy = some b) ∨
        ∃ i, ¬IsListed policies i ∧ (metricAttachment snapshot).get? i = some b := by
  simp only [mem_rowsOf]
  constructor
  case mp =>
    rintro ⟨_, ⟨i, hi, rfl⟩, hb⟩
    by_cases hl : IsListed policies i
    case pos =>
      obtain ⟨policy, hp, rfl⟩ := List.mem_map.mp hl
      exact .inl ⟨policy, hp, rowOf_listed hn hp ▸ hb⟩
    case neg => exact .inr ⟨i, hl, rowOf_unlisted hl ▸ hb⟩
  case mpr =>
    rintro (⟨policy, hp, hb⟩ | ⟨i, hl, hb⟩)
    · exact ⟨_, ⟨_, .inl <| List.mem_map_of_mem hp, rfl⟩, (rowOf_listed hn hp).trans hb⟩
    · exact ⟨_, ⟨i, .inr <| Option.isSome_of_mem hb, rfl⟩, (rowOf_unlisted hl).trans hb⟩

include hn in
theorem rowSays_iff {b : Bool} (hp : policy ∈ policies) :
    RowSays (rowsOf localeCompare policies (metricAttachment snapshot)) policy b ↔
      stateOf snapshot policy = some b := by
  constructor
  case mp =>
    rintro ⟨row, hr, hi, hb⟩
    obtain ⟨i, -, rfl⟩ := mem_rowsOf.mp hr
    obtain rfl : i = policy.policyIdent := hi
    exact rowOf_listed hn hp ▸ hb
  case mpr =>
    intro hb
    exact ⟨_, mem_rowsOf.mpr ⟨_, .inl <| List.mem_map_of_mem hp, rfl⟩, rfl, (rowOf_listed hn hp).trans hb⟩

end Rows

section Verdict

variable {rows : List PolicerAttachmentRow}

theorem pendingAttachment_iff (hne : policies ≠ []) :
    attachmentVerdict (some policies) rows = .pendingAttachment ↔ ∃ row ∈ rows, row.attached = some false := by
  rw [attachmentVerdict, if_neg (by simpa using hne)]
  split
  case isTrue h  => simpa using h
  case isFalse h =>
    have h : ¬∃ row ∈ rows, row.attached = some false := by simpa using h
    refine iff_of_false ?_ h
    split <;> simp

theorem allAttached_iff (hne : policies ≠ []) :
    attachmentVerdict (some policies) rows = .allAttached ↔ ∀ row ∈ rows, row.attached = some true := by
  rw [attachmentVerdict, if_neg (by simpa using hne)]
  split
  case isTrue h =>
    obtain ⟨row, hr, hf⟩ : ∃ row ∈ rows, row.attached = some false := by simpa using h
    exact iff_of_false (by simp) fun ht => by simp [ht row hr] at hf
  case isFalse h =>
    have hf : ∀ row ∈ rows, row.attached ≠ some false := by simpa using h
    split
    case isTrue h =>
      obtain ⟨row, hr, hn⟩ : ∃ row ∈ rows, row.attached = none := by simpa using h
      exact iff_of_false (by simp) fun ht => by simp [ht row hr] at hn
    case isFalse h =>
      have hn : ∀ row ∈ rows, row.attached ≠ none := by simpa using h
      refine iff_of_true rfl fun row hr => ?_
      obtain ⟨b, hb⟩ := Option.ne_none_iff_exists'.mp <| hn row hr
      cases b
      case false => exact absurd hb <| hf row hr
      case true  => exact hb

-- The two verdicts that find something tell the rest.
theorem verdict_congr {rows' : List PolicerAttachmentRow} (hne : policies ≠ [])
    (hp : attachmentVerdict (some policies) rows = .pendingAttachment ↔
      attachmentVerdict (some policies) rows' = .pendingAttachment)
    (ha : attachmentVerdict (some policies) rows = .allAttached ↔
      attachmentVerdict (some policies) rows' = .allAttached) :
    attachmentVerdict (some policies) rows = attachmentVerdict (some policies) rows' := by
  have other (rows : List PolicerAttachmentRow) : attachmentVerdict (some policies) rows = .pendingAttachment ∨
      attachmentVerdict (some policies) rows = .allAttached ∨
      attachmentVerdict (some policies) rows = .incomplete := by
    rw [attachmentVerdict, if_neg (by simpa using hne)]
    split
    · exact .inl rfl
    · split
      · exact .inr <| .inr rfl
      · exact .inr <| .inl rfl
  obtain h | h | h := other rows
  · rw [h, hp.mp h]
  · rw [h, ha.mp h]
  · obtain h' | h' | h' := other rows'
    · exact absurd (h.symm.trans <| hp.mpr h') nofun
    · exact absurd (h.symm.trans <| ha.mpr h') nofun
    · rw [h, h']

theorem counted_rows : rows.countP (·.attached = some false) + rows.countP (·.attached = some true) +
    rows.countP (·.attached = none) = rows.length := by
  induction rows
  case nil => rfl
  case cons row rows hi =>
    obtain h | h | h : row.attached = some false ∨ row.attached = some true ∨ row.attached = none := by
      cases row.attached
      case none   => simp
      case some b => cases b <;> simp
    all_goals
      simp only [List.countP_cons, h, List.length_cons]
      simp
      omega

end Verdict

section Report

theorem settled_failure : (settled policies snapshot).failure = snapshot.failure := by
  rw [settled]
  split <;> rfl

theorem policerAttachment_eq (hs : snapshot.failure = none) :
    policerAttachment localeCompare (some snapshot) (some policies) =
      let rows := rowsOf localeCompare policies (metricAttachment snapshot)
      .ok rows (attachmentVerdict (some policies) rows) (snapshot.families.get? policerAttached).isSome
        (some policies.length) (rows.countP (·.attached = some false))
        (rows.countP (·.attached = some true)) (rows.countP (·.attached = none)) := by
  simp [policerAttachment, hs, rowsOf]

theorem stateOf_settled (hp : policy ∈ policies) :
    stateOf (settled policies snapshot) policy = stateOf snapshot policy := by
  rw [stateOf, get?_settled, if_pos (show IsListed policies _ from List.mem_map_of_mem hp), stateOf]

variable (hs : snapshot.failure = none) (hne : policies ≠ [])
variable (hn : (policies.map (·.policyIdent)).Nodup)

-- A series of a policer that is not listed reads zero.
def LingersPending (snapshot : MetricsSnapshot) (policies : List PolicyAttribute) : Prop :=
  ∃ i, ¬IsListed policies i ∧ (metricAttachment snapshot).get? i = some false

include hne hn in
theorem pendingAttachment_rowsOf : attachmentVerdict (some policies)
      (rowsOf localeCompare policies (metricAttachment snapshot)) = .pendingAttachment ↔
    (∃ policy ∈ policies, stateOf snapshot policy = some false) ∨ LingersPending snapshot policies := by
  rw [pendingAttachment_iff hne, exists_row_iff hn, LingersPending]

include hne hn in
theorem allAttached_rowsOf : attachmentVerdict (some policies)
      (rowsOf localeCompare policies (metricAttachment snapshot)) = .allAttached ↔
    (∀ policy ∈ policies, stateOf snapshot policy = some true) ∧ ¬LingersPending snapshot policies := by
  rw [allAttached_iff hne]
  constructor
  case mp =>
    intro h
    refine ⟨fun policy hp => ?_, fun ⟨i, hi, hf⟩ => ?_⟩
    · have hr := h _ <| mem_rowsOf.mpr ⟨policy.policyIdent, .inl <| List.mem_map_of_mem hp, rfl⟩
      rwa [rowOf_listed hn hp] at hr
    · have hr := h _ <| mem_rowsOf.mpr ⟨i, .inr <| Option.isSome_of_mem hf, rfl⟩
      rw [rowOf_unlisted hi, hf] at hr
      cases hr
  case mpr =>
    rintro ⟨hl, hu⟩ row hr
    obtain ⟨i, hi, rfl⟩ := mem_rowsOf.mp hr
    by_cases hp : IsListed policies i
    case pos =>
      obtain ⟨policy, hm, rfl⟩ := List.mem_map.mp hp
      exact (rowOf_listed hn hm).trans <| hl policy hm
    case neg =>
      obtain ⟨b, hb⟩ := Option.isSome_iff_exists.mp <| hi.resolve_left hp
      rw [rowOf_unlisted hp, hb]
      cases b
      case false => exact absurd ⟨i, hp, hb⟩ hu
      case true  => rfl

theorem not_lingersPending_settled : ¬LingersPending (settled policies snapshot) policies := by
  rintro ⟨i, hi, hf⟩
  rw [get?_settled, if_neg hi] at hf
  cases hf

theorem exists_stateOf_settled {b : Bool} :
    (∃ policy ∈ policies, stateOf (settled policies snapshot) policy = some b) ↔
      ∃ policy ∈ policies, stateOf snapshot policy = some b :=
  exists_congr fun _ => and_congr_right fun hp => by rw [stateOf_settled hp]

include hs hne hn in
-- What lingers says the same as the list if it finds nothing, or what the list finds as well.
theorem judges_iff :
    Judges localeCompare snapshot policies
        (policerAttachment localeCompare (some snapshot) (some policies)) ↔
      (LingersPending snapshot policies → ∃ policy ∈ policies, stateOf snapshot policy = some false) := by
  have hpend := @pendingAttachment_rowsOf localeCompare snapshot policies hne hn
  have hall := @allAttached_rowsOf localeCompare snapshot policies hne hn
  rw [policerAttachment_eq hs]
  constructor
  case mp =>
    intro h hl
    obtain ⟨policy, hp, hf⟩ := h.pending.mp <| congrArg some <| hpend.mpr <| .inr hl
    exact ⟨policy, hp, (rowSays_iff hn hp).mp hf⟩
  case mpr =>
    intro h
    have hsays {b : Bool} : (∃ policy ∈ policies, RowSays (rowsOf localeCompare policies
        (metricAttachment snapshot)) policy b) ↔ ∃ policy ∈ policies, stateOf snapshot policy = some b :=
      exists_congr fun _ => and_congr_right fun hp => rowSays_iff hn hp
    have hlist : (∃ policy ∈ policies, stateOf snapshot policy = some false) ∨
        LingersPending snapshot policies ↔ ∃ policy ∈ policies, stateOf snapshot policy = some false :=
      or_iff_left_of_imp h
    have hquiet (ht : ∀ policy ∈ policies, stateOf snapshot policy = some true) :
        ¬LingersPending snapshot policies := by
      intro hl
      obtain ⟨policy, hp, hf⟩ := h hl
      exact absurd (hf.symm.trans <| ht policy hp) (by simp)
    constructor
    case pending =>
      refine Option.some_inj.trans ?_
      rw [hpend, hlist]
      exact hsays.symm
    case attached =>
      refine Option.some_inj.trans ?_
      rw [hall]
      constructor
      case mp => exact fun ⟨ht, _⟩ policy hp => (rowSays_iff hn hp).mpr <| ht policy hp
      case mpr =>
        intro ht
        have ht (policy) (hp : policy ∈ policies) := (rowSays_iff hn hp).mp <| ht policy hp
        exact ⟨ht, hquiet ht⟩
    case lingering =>
      rw [policerAttachment_eq <| settled_failure.trans hs]
      refine congrArg some <| verdict_congr hne ?_ ?_
      · rw [hpend, pendingAttachment_rowsOf hne hn, exists_stateOf_settled,
          or_iff_left not_lingersPending_settled, hlist]
      · rw [hall, allAttached_rowsOf hne hn, and_iff_left not_lingersPending_settled,
          and_iff_left_of_imp hquiet]
        exact forall₂_congr fun _ hp => by rw [stateOf_settled hp]
    case idents => exact rowsOf_nodup
    case union => exact fun i => rowsOf_idents.mem_iff.trans mem_unionOf
    case counted => exact counted_rows

-- A scrape of the gauge alone.
def gauge (series : List (String × Value)) : MetricsSnapshot where
  receivedAtMs := 0
  available    := true
  failure      := none
  families     := .ofList [(policerAttached, {
    name    := policerAttached
    samples := series.map fun (i, v) => ⟨policerAttached, .ofList [(ident, i)], v⟩
  })]

-- The gauge still holds the series of a policer that was deleted before it was ever attached.
def deletedSeries : MetricsSnapshot :=
  gauge [("gold", .finite 1), ("gone", .finite 0), ("stale", .nan)]

theorem not_judges_deletedSeries : ¬∀ (localeCompare : String → String → Ordering)
    (snapshot : MetricsSnapshot) (policies : List PolicyAttribute), snapshot.failure = none →
    policies ≠ [] → (policies.map (·.policyIdent)).Nodup →
    Judges localeCompare snapshot policies
      (policerAttachment localeCompare (some snapshot) (some policies)) := by
  intro h
  have hne : [(⟨"gold", some true⟩ : PolicyAttribute)] ≠ [] := List.cons_ne_nil _ _
  have hn : ([(⟨"gold", some true⟩ : PolicyAttribute)].map (·.policyIdent)).Nodup := by decide
  have h := h compare deletedSeries _ rfl hne hn
  rw [policerAttachment_eq rfl] at h
  have hp : LingersPending deletedSeries [⟨"gold", some true⟩] := ⟨"gone", by decide, by decide⟩
  obtain ⟨policy, hm, hf⟩ := h.pending.mp <| congrArg some <|
    (pendingAttachment_rowsOf hne hn).mpr <| .inr hp
  have hf := (rowSays_iff hn hm).mp hf
  rw [List.mem_singleton.mp hm] at hf
  revert hf
  decide

theorem judges_deletedSeries : Judges compare deletedSeries [⟨"gold", some true⟩, ⟨"slow", some false⟩]
    (policerAttachment compare (some deletedSeries)
      (some [⟨"gold", some true⟩, ⟨"slow", some false⟩])) :=
  (judges_iff rfl (List.cons_ne_nil _ _) (by decide)).mpr fun _ => ⟨⟨"slow", some false⟩, by simp, by decide⟩

end Report

end PolicerAttachment
