import LoxilbUi.Library.Forall2
import LoxilbUi.Observability.JwtAuth

-- The verdict on a profile is read from the series of its own label, and from none where another profile
-- has that label too.

namespace JwtAuth

open Observability

section Label

variable {name : String} {bytes : List UInt8} {b : UInt8}

def isLabelChar (c : Char) : Bool :=
  c.isAlphanum || c = '.' || c = '_' || c = '-'

def sanitize (b : UInt8) : UInt8 :=
  if isSafeLabelByte b then b else underscore

theorem length_encode : (encode name).length = name.utf8ByteSize := by
  have h := congrArg ByteArray.size <| @String.utf8Encode_toList name
  rw [List.utf8Encode, List.size_toByteArray] at h
  exact h

theorem encode_ofList {l : List Char} : encode (.ofList l) = l.flatMap String.utf8EncodeChar := by
  rw [encode, String.toList_ofList]

theorem isSafeLabelByte_sanitize : isSafeLabelByte (sanitize b) = true := by
  rw [sanitize]
  split
  case isTrue h => exact h
  case isFalse  => rfl

theorem sanitize_of_safe (h : isSafeLabelByte b = true) : sanitize b = b :=
  if_pos h

-- A safe byte is a character of its own.
theorem char_of_safe (h : isSafeLabelByte b = true) :
    isLabelChar (Char.ofNat b.toNat) = true ∧ String.utf8EncodeChar (Char.ofNat b.toNat) = [b] := by
  have hn : ∀ n < 256, isSafeLabelByte (.ofNat n) = true →
      isLabelChar (Char.ofNat n) = true ∧ String.utf8EncodeChar (Char.ofNat n) = [.ofNat n] := by
    decide +kernel
  have hb := hn b.toNat b.toNat_lt
  rw [UInt8.ofNat_toNat] at hb
  exact hb h

theorem encode_decode (h : ∀ b ∈ bytes, isSafeLabelByte b = true) : encode (decode bytes) = bytes := by
  rw [decode, encode_ofList]
  induction bytes
  case nil => rfl
  case cons b bytes hi =>
    obtain ⟨hb, h⟩ := List.forall_mem_cons.mp h
    rw [List.map_cons, List.flatMap_cons, hi h, (char_of_safe hb).2, List.singleton_append]

theorem jwksProfileLabel_eq :
    jwksProfileLabel name = decode (((encode name).map sanitize).take labelMaxBytes) :=
  rfl

theorem safe_of_mem (h : b ∈ ((encode name).map sanitize).take labelMaxBytes) : isSafeLabelByte b = true := by
  obtain ⟨b', -, rfl⟩ := List.mem_map.mp <| List.mem_of_mem_take h
  exact isSafeLabelByte_sanitize

theorem length_jwksProfileLabel : (jwksProfileLabel name).length = min 64 name.utf8ByteSize := by
  rw [jwksProfileLabel_eq, decode, String.length_ofList, List.length_map, List.length_take, List.length_map,
    length_encode, labelMaxBytes]

theorem isLabelChar_of_mem {c : Char} (h : c ∈ (jwksProfileLabel name).toList) : isLabelChar c = true := by
  rw [jwksProfileLabel_eq, decode, String.toList_ofList] at h
  obtain ⟨b, hb, rfl⟩ := List.mem_map.mp h
  exact (char_of_safe <| safe_of_mem hb).1

theorem jwksProfileLabel_idem : jwksProfileLabel (jwksProfileLabel name) = jwksProfileLabel name := by
  have hs : ∀ b ∈ ((encode name).map sanitize).take labelMaxBytes, isSafeLabelByte b = true :=
    fun _ => safe_of_mem
  have hm : (((encode name).map sanitize).take labelMaxBytes).map sanitize =
      ((encode name).map sanitize).take labelMaxBytes :=
    (List.map_congr_left (g := id) fun b hb => sanitize_of_safe <| hs b hb).trans <| List.map_id _
  rw [jwksProfileLabel_eq, jwksProfileLabel_eq, encode_decode hs, hm, List.take_take, min_self]

end Label

section Reads

variable {snapshot snapshot' : MetricsSnapshot} {history history' : List MetricsSnapshot} {maxGapMs : Value}
variable {family label l outcome : String} {profiles : List String} {profile other : String} {s : MetricSample}

-- What a series adds to the gauge of a label.
def gaugeAt (label : String) (s : MetricSample) : Option ℚ :=
  match s.labels.get? "profile", s.value with
  | some profile, .finite q => if profile = label then some q else none
  | _, _                    => none

theorem gaugeAt_eq_some_iff {q : ℚ} :
    gaugeAt label s = some q ↔ s.labels.get? "profile" = some label ∧ s.value = .finite q := by
  rw [gaugeAt]
  split
  case h_1 profile q' hp hv =>
    rw [hp, hv]
    by_cases h : profile = label <;> simp [h]
  case h_2 h =>
    refine iff_of_false (by simp) ?_
    exact fun ⟨hp, hv⟩ => h _ _ hp hv

theorem get?_addGauge {out : Dict ℚ} : (addGauge out s).get? label = (out.get? label).or (gaugeAt label s) := by
  rw [addGauge]
  split
  case h_1 profile q hp hv =>
    have hg : gaugeAt label s = if profile = label then some q else none := by simp [gaugeAt, hp, hv]
    rw [hg]
    by_cases hl : profile = label
    · subst hl
      cases hg : out.get? profile <;> simp [Dict.has, hg]
    · rw [if_neg hl, Option.or_none]
      split
      case isTrue  => rfl
      case isFalse => rw [Dict.get?_set, if_neg (Ne.symm hl)]
  case h_2 h =>
    have hg : gaugeAt label s = none := Option.eq_none_iff_forall_ne_some.mpr fun q hq =>
      h _ _ (gaugeAt_eq_some_iff.mp hq).1 (gaugeAt_eq_some_iff.mp hq).2
    rw [hg, Option.or_none]

theorem get?_gaugeByLabel :
    (gaugeByLabel snapshot family).get? label = (selectSamples snapshot family).findSome? (gaugeAt label) := by
  rw [gaugeByLabel]
  induction selectSamples snapshot family using List.reverseRecOn
  case nil => rfl
  case append_singleton samples s hi =>
    rw [List.foldl_concat, get?_addGauge, hi, List.findSome?_append, List.findSome?_singleton]

theorem get?_labelCounts :
    ((labelCounts profiles).get? label).getD 0 = profiles.countP (jwksProfileLabel · = label) := by
  rw [labelCounts]
  induction profiles using List.reverseRecOn
  case nil => rfl
  case append_singleton profiles name hi =>
    rw [List.foldl_concat, Dict.get?_set, List.countP_append, List.countP_singleton, ← hi]
    by_cases h : jwksProfileLabel name = label
    · simp [h]
    · simp [h, Ne.symm h]

-- Two profiles with one label are counted twice.
theorem one_lt_labelCounts (hp : profile ∈ profiles) (ho : other ∈ profiles) (hn : other ≠ profile)
    (hl : jwksProfileLabel other = jwksProfileLabel profile) :
    1 < ((labelCounts profiles).get? <| jwksProfileLabel profile).getD 0 := by
  rw [get?_labelCounts, List.countP_eq_length_filter]
  have hs : [profile, other] ⊆ profiles.filter (jwksProfileLabel · = jwksProfileLabel profile) := by
    simp [hp, ho, hl]
  exact (List.subperm_of_subset (by simp [Ne.symm hn]) hs).length_le

-- The snapshots differ in series of that label at most.
structure AgreesOff (l : String) (snapshot snapshot' : MetricsSnapshot) : Prop where
  receivedAt : snapshot.receivedAtMs = snapshot'.receivedAtMs
  failure    : snapshot.failure = snapshot'.failure
  held       : ∀ family, (snapshot.families.get? family).isNone = (snapshot'.families.get? family).isNone
  series     : ∀ family, (selectSamples snapshot family).filter (·.labels.get? "profile" ≠ some l) =
    (selectSamples snapshot' family).filter (·.labels.get? "profile" ≠ some l)

theorem findSome?_filter {α β : Type*} {f : α → Option β} {p : α → Bool} {samples : List α}
    (h : ∀ x, p x = false → f x = none) : (samples.filter p).findSome? f = samples.findSome? f := by
  induction samples
  case nil => rfl
  case cons x samples hi =>
    cases hp : p x
    case true  => rw [List.filter_cons_of_pos hp, List.findSome?_cons, List.findSome?_cons, hi]
    case false => rw [List.filter_cons_of_neg (by simp [hp]), List.findSome?_cons, h x hp, hi]

theorem filter_filter_of_imp {α : Type*} {p q : α → Bool} {samples : List α} (h : ∀ x, p x = true → q x = true) :
    (samples.filter q).filter p = samples.filter p := by
  rw [List.filter_filter]
  refine List.filter_congr fun x _ => ?_
  cases hp : p x
  case false => rfl
  case true  => rw [Bool.true_and, h x hp]

namespace AgreesOff

theorem gaugeByLabel (h : AgreesOff l snapshot snapshot') (hn : label ≠ l) :
    (gaugeByLabel snapshot family).get? label = (gaugeByLabel snapshot' family).get? label := by
  have ho : ∀ s : MetricSample, decide (s.labels.get? "profile" ≠ some l) = false → gaugeAt label s = none := by
    intro s hs
    refine Option.eq_none_iff_forall_ne_some.mpr fun q hq => hn ?_
    have hp := (gaugeAt_eq_some_iff.mp hq).1
    simpa [hp] using hs
  rw [get?_gaugeByLabel, get?_gaugeByLabel, ← findSome?_filter ho, h.series family, findSome?_filter ho]

theorem sumOf {filter : LabelMatch} (h : AgreesOff l snapshot snapshot')
    (hf : ∀ labels, matchesLabels labels (some filter) = true → labels.get? "profile" ≠ some l) :
    sumOf family filter snapshot = sumOf family filter snapshot' := by
  have hs : (selectSamples snapshot family).filter (fun x => matchesLabels x.labels (some filter)) =
      (selectSamples snapshot' family).filter (fun x => matchesLabels x.labels (some filter)) := by
    rw [← filter_filter_of_imp (q := fun x => x.labels.get? "profile" ≠ some l), h.series family,
      filter_filter_of_imp]
    all_goals exact fun x hx => by simpa using hf x.labels hx
  simp only [Observability.sumOf, hs]

end AgreesOff

theorem profile_of_matches {labels : Labels}
    (h : matchesLabels labels (some <| .equality <| .ofList [("profile", label), ("outcome", outcome)]) = true) :
    labels.get? "profile" = some label := by
  have he : (Dict.ofList [("profile", label), ("outcome", outcome)]).entries =
      [("profile", label), ("outcome", outcome)] := Dict.entries_ofList <| by simp
  simp only [matchesLabels, he, List.all_cons, Bool.and_eq_true, decide_eq_true_eq] at h
  exact h.1

theorem newest_agree (h : List.Forall₂ (AgreesOff l) history history') :
    Option.Rel (AgreesOff l) (newest history) (newest history') ∧
      Option.Rel (AgreesOff l) (beforeNewest history) (beforeNewest history') := by
  rw [newest, newest, beforeNewest, beforeNewest]
  rw [← List.forall₂_reverse_iff] at h
  rw [← List.reverse_reverse history, ← List.reverse_reverse history']
  generalize history.reverse = past at h
  generalize history'.reverse = past' at h
  cases h
  case nil => exact ⟨.none, .none⟩
  case cons s s' past past' hs h =>
    refine ⟨by simpa using hs, ?_⟩
    cases h
    case nil          => simp
    case cons hb _    => simpa using hb

theorem refreshRate_agree (h : List.Forall₂ (AgreesOff l) history history') (hn : label ≠ l) :
    refreshRate history maxGapMs label outcome = refreshRate history' maxGapMs label outcome := by
  have hf : ∀ labels, matchesLabels labels (some <| .equality <| .ofList [("profile", label), ("outcome", outcome)]) =
      true → labels.get? "profile" ≠ some l := by
    intro labels hm he
    exact hn <| Option.some.inj <| (profile_of_matches hm).symm.trans he
  obtain ⟨hc, hp⟩ := newest_agree h
  rw [refreshRate, refreshRate, partitionRate, partitionRate]
  generalize newest history = current, newest history' = current' at hc ⊢
  generalize beforeNewest history = previous, beforeNewest history' = previous' at hp ⊢
  cases hc
  case none => rfl
  case some current current' hc =>
    cases hp
    case none => rfl
    case some previous previous' hp =>
      simp only [hc.held, hp.held, hc.sumOf hf, hp.sumOf hf, pointOf, hc.receivedAt, hp.receivedAt]

end Reads

section Verdict

variable {profiles : List String} {maxGapMs : Value} {profile other l : String} {counts : Dict Nat}
variable {gauges : Gauges} {receivedAtMs : ℚ} {rate : String → String → RateResult}

theorem healthOf_profile : (healthOf counts gauges receivedAtMs rate profile).profile = profile := by
  rw [healthOf]
  split
  case isTrue => rfl
  case isFalse =>
    split
    case h_1 => rfl
    case h_2 =>
      split
      · split <;> rfl
      · rfl

theorem healthOf_of_shared (h : 1 < (counts.get? <| jwksProfileLabel profile).getD 0) :
    (healthOf counts gauges receivedAtMs rate profile).kind = .ambiguousLabel ∧
      (healthOf counts gauges receivedAtMs rate profile).admitting = false := by
  rw [healthOf, if_pos h]
  exact ⟨rfl, rfl⟩

theorem of_admitting (h : (healthOf counts gauges receivedAtMs rate profile).admitting = true) :
    ¬1 < (counts.get? <| jwksProfileLabel profile).getD 0 ∧
      ∃ u, gauges.usable.get? (jwksProfileLabel profile) = some u ∧ u ≠ 0 := by
  rw [healthOf] at h
  split at h
  case isTrue => cases h
  case isFalse hc =>
    refine ⟨hc, ?_⟩
    split at h
    case h_1 => cases h
    case h_2 u hu =>
      split at h
      case isTrue    => split at h <;> cases h
      case isFalse hz => exact ⟨u, hu, hz⟩

end Verdict

section Report

variable {snapshot snapshot' : MetricsSnapshot} {history history' : List MetricsSnapshot} {maxGapMs : Value}
variable {profiles : List String} {profile other l : String} {row : JwksHealth}

def gaugesOf (snapshot : MetricsSnapshot) : Gauges where
  usable      := gaugeByLabel snapshot jwksUsable
  keys        := gaugeByLabel snapshot jwksKeys
  lastSuccess := gaugeByLabel snapshot jwksLastSuccess

def healthAt (profiles : List String) (maxGapMs : Value) (profile : String) (snapshot : MetricsSnapshot)
    (history : List MetricsSnapshot) : JwksHealth :=
  healthOf (labelCounts profiles) (gaugesOf snapshot) snapshot.receivedAtMs (refreshRate history maxGapMs) profile

-- The rows of a report.
def rowsOf : JwksHealthReport → List JwksHealth
  | .ok byProfile => byProfile
  | _             => []

-- The row of a profile, and its verdict.
def rowAt (profiles : List String) (maxGapMs : Value) (profile : String) (snapshot : MetricsSnapshot)
    (history : List MetricsSnapshot) : Option JwksHealth :=
  (rowsOf <| jwksHealthFor profiles (some snapshot) history maxGapMs).find? (·.profile = profile)

def verdictAt (profiles : List String) (maxGapMs : Value) (profile : String) (snapshot : MetricsSnapshot)
    (history : List MetricsSnapshot) : Option (JwksHealthKind × Bool) :=
  (rowAt profiles maxGapMs profile snapshot history).map fun row => (row.kind, row.admitting)

theorem rowsOf_eq : rowsOf (jwksHealthFor profiles (some snapshot) history maxGapMs) =
    if snapshot.failure.isSome || (snapshot.families.get? jwksUsable).isNone then []
    else profiles.map fun profile => healthAt profiles maxGapMs profile snapshot history := by
  rw [jwksHealthFor]
  simp only
  split
  case isTrue h  => simp [h, rowsOf]
  case isFalse h =>
    split
    case isTrue hu  => simp [hu, rowsOf]
    case isFalse hu =>
      rw [if_neg (by simp [h, hu])]
      rfl

theorem rowAt_eq : rowAt profiles maxGapMs profile snapshot history =
    if snapshot.failure.isSome || (snapshot.families.get? jwksUsable).isNone then none
    else if profile ∈ profiles then some (healthAt profiles maxGapMs profile snapshot history) else none := by
  rw [rowAt, rowsOf_eq]
  split
  case isTrue  => rfl
  case isFalse =>
    rw [List.find?_map]
    simp only [Function.comp_def, healthAt, healthOf_profile]
    cases hf : profiles.find? (· = profile)
    case none =>
      have hn : profile ∉ profiles := fun hm => by simpa using List.find?_eq_none.mp hf profile hm
      rw [if_neg hn, Option.map_none]
    case some name =>
      obtain rfl : name = profile := by simpa using List.find?_some hf
      rw [if_pos (List.mem_of_find?_eq_some hf), Option.map_some]

theorem healthAt_agree (h : AgreesOff l snapshot snapshot') (hh : List.Forall₂ (AgreesOff l) history history')
    (hn : jwksProfileLabel profile ≠ l) :
    healthAt profiles maxGapMs profile snapshot history = healthAt profiles maxGapMs profile snapshot' history' := by
  simp only [healthAt, healthOf, gaugesOf, h.gaugeByLabel hn, h.receivedAt, refreshRate_agree hh hn]
  rfl

theorem rowAt_agree (h : AgreesOff l snapshot snapshot') (hh : List.Forall₂ (AgreesOff l) history history')
    (hn : jwksProfileLabel profile ≠ l) :
    rowAt profiles maxGapMs profile snapshot history = rowAt profiles maxGapMs profile snapshot' history' := by
  rw [rowAt_eq, rowAt_eq, h.failure, h.held, healthAt_agree h hh hn]

-- What is told depends on the series of the label: it may change where nothing else does.
def Reads {α : Type*} (l : String) (told : MetricsSnapshot → List MetricsSnapshot → α) : Prop :=
  ∃ snapshot snapshot' history history', AgreesOff l snapshot snapshot' ∧
    List.Forall₂ (AgreesOff l) history history' ∧ told snapshot history ≠ told snapshot' history'

theorem label_of_reads_row (h : Reads l <| rowAt profiles maxGapMs profile) : jwksProfileLabel profile = l := by
  obtain ⟨_, _, _, _, hs, hh, hn⟩ := h
  by_contra hl
  exact hn <| rowAt_agree hs hh hl

theorem reads_row_of_verdict (h : Reads l <| verdictAt profiles maxGapMs profile) :
    Reads l <| rowAt profiles maxGapMs profile := by
  obtain ⟨_, _, _, _, hs, hh, hn⟩ := h
  exact ⟨_, _, _, _, hs, hh, fun he => hn <| congrArg _ he⟩

-- A profile whose label another one has too has its verdict from no series.
theorem not_reads_verdict (hp : profile ∈ profiles) (ho : other ∈ profiles) (hn : other ≠ profile)
    (hl : jwksProfileLabel other = jwksProfileLabel profile) :
    ¬Reads l (verdictAt profiles maxGapMs profile) := by
  rintro ⟨_, _, _, _, hs, -, hv⟩
  refine hv ?_
  have ha := fun snapshot history => @healthOf_of_shared profile (labelCounts profiles) (gaugesOf snapshot)
    snapshot.receivedAtMs (refreshRate history maxGapMs) <| one_lt_labelCounts hp ho hn hl
  rw [verdictAt, verdictAt, rowAt_eq, rowAt_eq, hs.failure, hs.held]
  split
  case isTrue  => rfl
  case isFalse => simp [healthAt, ha]

structure Attributed (profiles : List String) (maxGapMs : Value) : Prop where
  admitting : ∀ snapshot history, ∀ row ∈ rowsOf (jwksHealthFor profiles snapshot history maxGapMs),
    row.admitting = true →
      (∃ current, snapshot = some current ∧ ∃ s ∈ selectSamples current jwksUsable,
        s.labels.get? "profile" = some (jwksProfileLabel row.profile) ∧ ∃ u, s.value = .finite u ∧ u ≠ 0) ∧
      ∀ other ∈ profiles, other ≠ row.profile → jwksProfileLabel other ≠ jwksProfileLabel row.profile
  own       : ∀ profile l, Reads l (rowAt profiles maxGapMs profile) → l = jwksProfileLabel profile
  -- No series gives two profiles their verdicts, and where it gives both anything they are marked.
  verdicts  : ∀ profile ∈ profiles, ∀ other ∈ profiles, other ≠ profile → ∀ l,
    ¬(Reads l (verdictAt profiles maxGapMs profile) ∧ Reads l (verdictAt profiles maxGapMs other))
  rows      : ∀ profile ∈ profiles, ∀ other ∈ profiles, other ≠ profile → ∀ l,
    Reads l (rowAt profiles maxGapMs profile) → Reads l (rowAt profiles maxGapMs other) →
      ∀ snapshot history row, rowAt profiles maxGapMs profile snapshot history = some row →
        row.kind = .ambiguousLabel ∧ row.admitting = false

theorem admitting_row {current : Option MetricsSnapshot}
    (h : row ∈ rowsOf (jwksHealthFor profiles current history maxGapMs)) (ha : row.admitting = true) :
    (∃ snapshot, current = some snapshot ∧ ∃ s ∈ selectSamples snapshot jwksUsable,
      s.labels.get? "profile" = some (jwksProfileLabel row.profile) ∧ ∃ u, s.value = .finite u ∧ u ≠ 0) ∧
    ∀ other ∈ profiles, other ≠ row.profile → jwksProfileLabel other ≠ jwksProfileLabel row.profile := by
  cases current
  case none => cases h
  case some snapshot =>
    rw [rowsOf_eq] at h
    split at h
    case isTrue  => cases h
    case isFalse =>
      obtain ⟨profile, hp, rfl⟩ := List.mem_map.mp h
      obtain ⟨hc, u, hu, hz⟩ := of_admitting ha
      rw [healthAt, healthOf_profile]
      refine ⟨⟨snapshot, rfl, ?_⟩, fun other ho hn hl => hc <| one_lt_labelCounts hp ho hn hl⟩
      rw [gaugesOf, get?_gaugeByLabel] at hu
      obtain ⟨s, hs, hg⟩ := List.exists_of_findSome?_eq_some hu
      obtain ⟨hl, hv⟩ := gaugeAt_eq_some_iff.mp hg
      exact ⟨s, hs, hl, u, hv, hz⟩

theorem row_of_shared (hp : profile ∈ profiles) (ho : other ∈ profiles) (hn : other ≠ profile)
    (hl : jwksProfileLabel other = jwksProfileLabel profile)
    (h : rowAt profiles maxGapMs profile snapshot history = some row) :
    row.kind = .ambiguousLabel ∧ row.admitting = false := by
  rw [rowAt_eq, if_pos hp] at h
  split at h
  case isTrue  => cases h
  case isFalse => exact Option.some.inj h ▸ healthOf_of_shared (one_lt_labelCounts hp ho hn hl)

theorem attributed (profiles : List String) (maxGapMs : Value) : Attributed profiles maxGapMs where
  admitting := fun _ _ _ h ha => admitting_row h ha
  own       := fun _ _ h => (label_of_reads_row h).symm
  verdicts  := by
    rintro profile hp other ho hn l ⟨hr, hr'⟩
    have hl := (label_of_reads_row <| reads_row_of_verdict hr').trans
      (label_of_reads_row <| reads_row_of_verdict hr).symm
    exact not_reads_verdict hp ho hn hl hr
  rows      := by
    intro profile hp other ho hn l hr hr' snapshot history row
    exact row_of_shared hp ho hn <| (label_of_reads_row hr').trans (label_of_reads_row hr).symm

theorem jwksHealthFor_attributed (profiles : List String) (maxGapMs : Value) :
    Attributed profiles maxGapMs ∧ ∀ name, (jwksProfileLabel name).length = min 64 name.utf8ByteSize ∧
      (∀ c ∈ (jwksProfileLabel name).toList, isLabelChar c = true) ∧
      jwksProfileLabel (jwksProfileLabel name) = jwksProfileLabel name :=
  ⟨attributed profiles maxGapMs, fun _ =>
    ⟨length_jwksProfileLabel, fun _ => isLabelChar_of_mem, jwksProfileLabel_idem⟩⟩

end Report

end JwtAuth
