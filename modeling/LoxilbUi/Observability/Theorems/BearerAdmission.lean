import LoxilbUi.Observability.JwtAuth
import LoxilbUi.Observability.Theorems.Partition

-- The verdicts of the bearer gate are accounted for: by reason and tenant, and by rate.

namespace JwtAuth

open Observability

variable {localeCompare : String → String → Ordering} {snapshot : MetricsSnapshot}
variable {history : List MetricsSnapshot} {maxGapMs : Value} {reason tenant : String}
variable {samples : List MetricSample} {s : MetricSample}

section Classes

-- The class that the table declares for a reason, and `unclassified` for any that it does not name.
def declaredClass (reason : String) : BearerReasonClass :=
  (reasonClasses.get? reason).getD .unclassified

theorem reasonClasses_entries : reasonClasses.entries = [
    (jwtReasonAllowed,           .admitted),
    ("missing_token",            .credential),
    ("invalid_token",            .credential),
    ("token_expired",            .credential),
    ("model_not_allowed",        .authorization),
    ("policy_store_unavailable", .gatewayFault),
    ("internal_error",           .gatewayFault)] :=
  rfl

-- The table names no member that every object inherits.
theorem reasonClasses_of_member (h : reason ∈ PlainObject.members) : reasonClasses.get? reason = none := by
  simp only [PlainObject.members, List.mem_cons, List.not_mem_nil, or_false] at h
  rcases h with rfl | rfl | rfl | rfl | rfl | rfl | rfl | rfl | rfl | rfl | rfl | rfl <;> rfl

theorem classifyBearerReason_of_member (h : reason ∈ PlainObject.members) :
    classifyBearerReason reason = .inherited reason := by
  rw [classifyBearerReason, PlainObject.read_of_get?_none (reasonClasses_of_member h), if_pos h]

theorem classifyBearerReason_of_not_member (h : reason ∉ PlainObject.members) :
    classifyBearerReason reason = .declared (declaredClass reason) := by
  rw [classifyBearerReason, declaredClass]
  cases hg : reasonClasses.get? reason
  case none   => rw [PlainObject.read_of_get?_none hg, if_neg h, Option.getD_none]
  case some c => rw [PlainObject.read_eq_own_iff.mpr hg, Option.getD_some]

-- The class of a reason is the declared one just if no inherited member has its name.
theorem classifyBearerReason_iff :
    classifyBearerReason reason = .declared (declaredClass reason) ↔ reason ∉ PlainObject.members := by
  refine ⟨fun h hm => ?_, classifyBearerReason_of_not_member⟩
  rw [classifyBearerReason_of_member hm] at h
  cases h

theorem declaredClass_eq_admitted_iff : declaredClass reason = .admitted ↔ reason = jwtReasonAllowed := by
  constructor
  case mpr => exact fun h => h ▸ rfl
  case mp =>
    intro h
    rw [declaredClass] at h
    cases hg : reasonClasses.get? reason
    case none   => simp [hg] at h
    case some c =>
      rw [hg, Option.getD_some] at h
      have hm := Dict.get?_eq_some_iff.mp <| h ▸ hg
      simpa [reasonClasses_entries] using hm

theorem isGatewayFault_iff :
    classifyBearerReason reason = .declared .gatewayFault ↔ declaredClass reason = .gatewayFault := by
  by_cases hm : reason ∈ PlainObject.members
  · rw [classifyBearerReason_of_member hm, declaredClass, reasonClasses_of_member hm]
    exact iff_of_false nofun nofun
  · rw [classifyBearerReason_of_not_member hm, Classified.declared.injEq]

end Classes

section Rows

def reasonOf (s : MetricSample) : String :=
  (s.labels.get? "reason").getD ""

def tenantOf (s : MetricSample) : String :=
  (s.labels.get? "tenant").getD jwtLabelAbsent

theorem tenants_addTenant {byReason : Dict (List String)} :
    tenant ∈ ((addTenant byReason s).get? reason).getD [] ↔
      tenant ∈ (byReason.get? reason).getD [] ∨ reasonOf s = reason ∧ tenantOf s = tenant := by
  rw [addTenant, Dict.get?_set, reasonOf, tenantOf]
  split
  case isTrue h =>
    subst h
    rw [Option.getD_some, List.mem_insert_iff]
    simp [or_comm, eq_comm]
  case isFalse h => simp [Ne.symm h]

theorem keys_addTenant {byReason : Dict (List String)} :
    reason ∈ (addTenant byReason s).keys ↔ reason ∈ byReason.keys ∨ reasonOf s = reason := by
  rw [addTenant, Dict.mem_keys_set, ← reasonOf, or_comm, eq_comm]

def tenantsByReason (samples : List MetricSample) : Dict (List String) :=
  samples.foldl addTenant .empty

theorem mem_tenantsByReason : tenant ∈ ((tenantsByReason samples).get? reason).getD [] ↔
    ∃ s ∈ samples, reasonOf s = reason ∧ tenantOf s = tenant := by
  rw [tenantsByReason]
  induction samples using List.reverseRecOn
  case nil => simp [Dict.empty, Dict.get?]
  case append_singleton samples s hi =>
    rw [List.foldl_concat, tenants_addTenant, hi]
    simp [or_and_right, exists_or]

theorem mem_keys_tenantsByReason :
    reason ∈ (tenantsByReason samples).keys ↔ ∃ s ∈ samples, reasonOf s = reason := by
  rw [tenantsByReason]
  induction samples using List.reverseRecOn
  case nil => simp [Dict.empty, Dict.keys]
  case append_singleton samples s hi =>
    rw [List.foldl_concat, keys_addTenant, hi]
    simp [or_and_right, exists_or]

theorem nodup_tenants {tenants : List String} (h : (tenantsByReason samples).get? reason = some tenants) :
    tenants.Nodup := by
  have hn : (((tenantsByReason samples).get? reason).getD []).Nodup := by
    clear h
    rw [tenantsByReason]
    induction samples using List.reverseRecOn
    case nil => exact List.nodup_nil
    case append_singleton samples s hi =>
      rw [List.foldl_concat, addTenant, Dict.get?_set]
      split
      case isTrue h  => exact h ▸ hi.insert
      case isFalse h => exact hi
  rwa [h] at hn

-- The rows of an answer.
def byReasonOf : BearerAdmission → List BearerReasonRate
  | .ok _ _ _ byReason => byReason
  | _                  => []

def reasonRow (history : List MetricsSnapshot) (maxGapMs : Value) (entry : String × List String) : BearerReasonRate where
  reason      := entry.1
  reasonClass := classifyBearerReason entry.1
  rate        := partitionRate history jwtValidation maxGapMs <| .equality <| .ofList [("reason", entry.1)]
  tenants     := entry.2.mergeSort codeUnitsLE

theorem selectSamples_of_none {family : String} (h : snapshot.families.get? family = none) :
    selectSamples snapshot family = [] := by
  rw [selectSamples, h]

theorem byReasonOf_perm (hf : snapshot.failure = none) :
    (byReasonOf <| bearerAdmission localeCompare (some snapshot) history maxGapMs).Perm
      ((tenantsByReason <| selectSamples snapshot jwtValidation).entries.map (reasonRow history maxGapMs)) := by
  simp only [bearerAdmission, hf, Option.isSome_none, Bool.false_eq_true, if_false]
  split
  case isTrue h =>
    rw [selectSamples_of_none (by simpa using h)]
    exact .nil
  case isFalse => exact List.mergeSort_perm _ _

theorem byReasonOf_of_failure (hf : snapshot.failure.isSome = true) :
    byReasonOf (bearerAdmission localeCompare (some snapshot) history maxGapMs) = [] := by
  simp [bearerAdmission, hf, byReasonOf]

end Rows

section Rates

variable {previous current : MetricsSnapshot} {c : BearerReasonClass} {r i r' i' : ℚ}

theorem matches_admitted {labels : Labels} :
    matchesLabels labels (some admittedMatch) = decide (labels.get? "reason" = some jwtReasonAllowed) := by
  have he : (Dict.ofList [("reason", jwtReasonAllowed)]).entries = [("reason", jwtReasonAllowed)] := rfl
  simp [matchesLabels, admittedMatch, he]

-- The denied are what is not admitted.
theorem rate_total (h : partitionRate history jwtValidation maxGapMs admittedMatch = .ok r i)
    (h' : partitionRate history jwtValidation maxGapMs deniedMatch = .ok r' i') :
    i = i' ∧ partitionRate history jwtValidation maxGapMs (.predicate fun _ => true) = .ok (r + r') i := by
  have ha : sumOf jwtValidation admittedMatch =
      sumOf jwtValidation (.predicate fun l => l.get? "reason" = some jwtReasonAllowed) := by
    funext s
    simp only [sumOf, matches_admitted]
    rfl
  have hd : deniedMatch = complement fun l => l.get? "reason" = some jwtReasonAllowed := by
    rw [deniedMatch, complement]
    simp
  rw [partitionRate, ha] at h
  rw [hd] at h'
  exact partitionRate_add h h'

-- The sum over the finite samples of a class.
def classSum (snapshot : MetricsSnapshot) (c : BearerReasonClass) : ℚ :=
  partsOf <| (selectSamples snapshot jwtValidation).filter fun s => declaredClass (reasonOf s) = c

def change (previous current : MetricsSnapshot) (c : BearerReasonClass) : ℚ :=
  classSum current c - classSum previous c

-- Between the two newest snapshots no class of refusals falls while another one rises.
def OneDirection (history : List MetricsSnapshot) : Prop :=
  ∀ previous current, newest history = some current → beforeNewest history = some previous →
    ∀ c c', c ≠ .admitted → c' ≠ .admitted → ¬(change previous current c < 0 ∧ 0 < change previous current c')

theorem denied_iff : decide (s.labels.get? "reason" ≠ some jwtReasonAllowed) =
    decide (declaredClass (reasonOf s) ≠ .admitted) := by
  refine decide_eq_decide.mpr <| not_congr ?_
  rw [declaredClass_eq_admitted_iff, reasonOf]
  cases s.labels.get? "reason" <;> simp [jwtReasonAllowed]

theorem partsOf_denied : partsOf (selected jwtValidation deniedMatch snapshot) =
    classSum snapshot .credential + classSum snapshot .authorization + classSum snapshot .gatewayFault +
      classSum snapshot .unclassified := by
  rw [deniedMatch, selected_predicate]
  simp only [denied_iff, classSum]
  induction selectSamples snapshot jwtValidation
  case nil => simp [partsOf]
  case cons s samples hi =>
    cases hc : declaredClass (reasonOf s) <;> simp [hc, partsOf_cons] at hi ⊢ <;> linarith

theorem partsOf_gatewayFault : partsOf (selected jwtValidation gatewayFaultMatch snapshot) =
    classSum snapshot .gatewayFault := by
  rw [gatewayFaultMatch, selected_predicate, classSum]
  refine congrArg partsOf <| List.filter_congr fun s _ => decide_eq_decide.mpr ?_
  exact isGatewayFault_iff

theorem rate_fault (hd : OneDirection history)
    (h : partitionRate history jwtValidation maxGapMs gatewayFaultMatch = .ok r i)
    (h' : partitionRate history jwtValidation maxGapMs deniedMatch = .ok r' i') : r ≤ r' := by
  obtain ⟨previous, current, a, b, hs, ha, hb, hab, rfl, rfl⟩ := partitionRate_eq_ok_iff.mp h
  obtain ⟨_, _, a', b', hs', ha', hb', hab', rfl, rfl⟩ := partitionRate_eq_ok_iff.mp h'
  obtain ⟨rfl, rfl⟩ := hs'.eq hs
  have hpa := (sumOf_eq_some_iff.mp ha).2
  have hpb := (sumOf_eq_some_iff.mp hb).2
  have hpa' := (sumOf_eq_some_iff.mp ha').2
  have hpb' := (sumOf_eq_some_iff.mp hb').2
  rw [partsOf_gatewayFault] at hpa hpb
  rw [partsOf_denied] at hpa' hpb'
  have hi : 0 < (current.receivedAtMs - previous.receivedAtMs) / 1000 :=
    div_pos (sub_pos.mpr hs.later) <| by norm_num
  refine (div_le_div_iff_of_pos_right hi).mpr ?_
  have hn := hd previous current hs.newest hs.before
  simp only [change] at hn
  obtain hz | hp := eq_or_lt_of_le hab
  · linarith
  · -- The faults have risen, and so no other class has fallen.
    have hc := fun c (h : c ≠ .admitted) => not_lt.mp fun hf => hn c .gatewayFault h nofun ⟨hf, by linarith⟩
    have h₁ := hc .credential nofun
    have h₂ := hc .authorization nofun
    have h₃ := hc .unclassified nofun
    linarith

end Rates

section Accounting

def reasonsOf (snapshot : MetricsSnapshot) : List String :=
  (selectSamples snapshot jwtValidation).map reasonOf

structure RowsAccount (snapshot : MetricsSnapshot) (rows : List BearerReasonRate) : Prop where
  -- A row for each reason, and no more than one.
  reasons : (rows.map (·.reason)).Nodup ∧ ∀ reason, reason ∈ rows.map (·.reason) ↔ reason ∈ reasonsOf snapshot
  classes : ∀ row ∈ rows, row.reasonClass = .declared (declaredClass row.reason)
  tenants : (∀ row ∈ rows, row.tenants.Nodup) ∧ ∀ reason tenant,
    (∃ row ∈ rows, row.reason = reason ∧ tenant ∈ row.tenants) ↔
      ∃ s ∈ selectSamples snapshot jwtValidation, reasonOf s = reason ∧ tenantOf s = tenant

structure Accounts (localeCompare : String → String → Ordering) (snapshot : MetricsSnapshot)
    (history : List MetricsSnapshot) (maxGapMs : Value) : Prop where
  rows  : RowsAccount snapshot <| byReasonOf <| bearerAdmission localeCompare (some snapshot) history maxGapMs
  total : ∀ admitted denied gatewayFault byReason r i r' i',
    bearerAdmission localeCompare (some snapshot) history maxGapMs = .ok admitted denied gatewayFault byReason →
      admitted = .ok r i → denied = .ok r' i' →
        i = i' ∧ partitionRate history jwtValidation maxGapMs (.predicate fun _ => true) = .ok (r + r') i
  fault : OneDirection history → ∀ admitted denied gatewayFault byReason r i r' i',
    bearerAdmission localeCompare (some snapshot) history maxGapMs = .ok admitted denied gatewayFault byReason →
      gatewayFault = .ok r i → denied = .ok r' i' → r ≤ r'

theorem rates_eq {admitted denied gatewayFault : RateResult} {byReason : List BearerReasonRate}
    (h : bearerAdmission localeCompare (some snapshot) history maxGapMs =
      .ok admitted denied gatewayFault byReason) :
    admitted = partitionRate history jwtValidation maxGapMs admittedMatch ∧
    denied = partitionRate history jwtValidation maxGapMs deniedMatch ∧
    gatewayFault = partitionRate history jwtValidation maxGapMs gatewayFaultMatch := by
  simp only [bearerAdmission] at h
  split at h
  case isTrue  => cases h
  case isFalse =>
    split at h
    case isTrue  => cases h
    case isFalse =>
      obtain ⟨rfl, rfl, rfl, -⟩ := BearerAdmission.ok.inj h
      exact ⟨rfl, rfl, rfl⟩

theorem mem_reasonRows {row : BearerReasonRate} {rows : List BearerReasonRate}
    (hp : rows.Perm ((tenantsByReason samples).entries.map (reasonRow history maxGapMs))) :
    row ∈ rows ↔ ∃ reason tenants, (tenantsByReason samples).get? reason = some tenants ∧
      reasonRow history maxGapMs (reason, tenants) = row := by
  rw [hp.mem_iff, List.mem_map]
  simp only [Prod.exists, Dict.get?_eq_some_iff]

theorem rowsAccount_iff {rows : List BearerReasonRate}
    (hp : rows.Perm ((tenantsByReason <| selectSamples snapshot jwtValidation).entries.map
      (reasonRow history maxGapMs))) :
    RowsAccount snapshot rows ↔ ∀ reason ∈ reasonsOf snapshot, reason ∉ PlainObject.members := by
  have hk : (rows.map (·.reason)).Perm (tenantsByReason <| selectSamples snapshot jwtValidation).keys := by
    refine (hp.map _).trans ?_
    rw [List.map_map]
    exact .refl _
  have hr : ∀ reason, reason ∈ rows.map (·.reason) ↔ reason ∈ reasonsOf snapshot := by
    intro reason
    rw [hk.mem_iff, mem_keys_tenantsByReason, reasonsOf, List.mem_map]
  constructor
  case mp =>
    intro h reason hm
    obtain ⟨row, hrow, rfl⟩ := List.mem_map.mp <| (hr reason).mpr hm
    obtain ⟨reason, tenants, -, rfl⟩ := (mem_reasonRows hp).mp hrow
    exact classifyBearerReason_iff.mp <| h.classes _ hrow
  case mpr =>
    intro h
    refine ⟨⟨hk.nodup_iff.mpr (tenantsByReason _).nodup, hr⟩, fun row hrow => ?_, fun row hrow => ?_,
      fun reason tenant => ?_⟩
    · have hm := h row.reason <| (hr _).mp <| List.mem_map.mpr ⟨row, hrow, rfl⟩
      obtain ⟨reason, tenants, -, rfl⟩ := (mem_reasonRows hp).mp hrow
      exact classifyBearerReason_of_not_member hm
    · obtain ⟨reason, tenants, ht, rfl⟩ := (mem_reasonRows hp).mp hrow
      exact (List.mergeSort_perm _ _).nodup_iff.mpr <| nodup_tenants ht
    · rw [← mem_tenantsByReason]
      constructor
      case mp =>
        rintro ⟨row, hrow, rfl, hm⟩
        obtain ⟨reason, tenants, ht, rfl⟩ := (mem_reasonRows hp).mp hrow
        simpa [reasonRow, ht] using hm
      case mpr =>
        intro hm
        cases ht : (tenantsByReason <| selectSamples snapshot jwtValidation).get? reason
        case none         => simp [ht] at hm
        case some tenants =>
          refine ⟨_, (mem_reasonRows hp).mpr ⟨reason, tenants, ht, rfl⟩, rfl, ?_⟩
          simpa [reasonRow, ht] using hm

-- A scrape that failed answers no rows, whatever it holds.
theorem rowsAccount_nil_iff : RowsAccount snapshot [] ↔ reasonsOf snapshot = [] := by
  constructor
  case mp  => exact fun h => List.eq_nil_iff_forall_not_mem.mpr fun reason hm => nomatch (h.reasons.2 reason).mpr hm
  case mpr =>
    intro h
    have hs := List.map_eq_nil_iff.mp h
    exact ⟨⟨.nil, by simp [h]⟩, nofun, nofun, by simp [hs]⟩

theorem bearerAdmission_iff (localeCompare : String → String → Ordering) (snapshot : MetricsSnapshot)
    (history : List MetricsSnapshot) (maxGapMs : Value) :
    Accounts localeCompare snapshot history maxGapMs ↔
      (snapshot.failure = none ∨ reasonsOf snapshot = []) ∧
        ∀ reason ∈ reasonsOf snapshot, reason ∉ PlainObject.members := by
  have ha : Accounts localeCompare snapshot history maxGapMs ↔ RowsAccount snapshot
      (byReasonOf <| bearerAdmission localeCompare (some snapshot) history maxGapMs) := by
    refine ⟨Accounts.rows, fun h => ⟨h, ?_, ?_⟩⟩
    · intro admitted denied gatewayFault byReason r i r' i' hb ho ho'
      obtain ⟨rfl, rfl, -⟩ := rates_eq hb
      exact rate_total ho ho'
    · intro hd admitted denied gatewayFault byReason r i r' i' hb ho ho'
      obtain ⟨-, rfl, rfl⟩ := rates_eq hb
      exact rate_fault hd ho ho'
  rw [ha]
  cases hf : snapshot.failure
  case none   => rw [rowsAccount_iff <| byReasonOf_perm hf, eq_self, true_or, true_and]
  case some e =>
    rw [byReasonOf_of_failure (by simp [hf]), rowsAccount_nil_iff]
    constructor
    case mp  => exact fun h => ⟨.inr h, by simp [h]⟩
    case mpr => exact fun h => h.1.resolve_left nofun

-- A reason that every object has a member of.
def inheritedReason : MetricsSnapshot where
  receivedAtMs := 0
  available    := true
  failure      := none
  families     := .ofList [(jwtValidation, ⟨jwtValidation, [{
    name   := jwtValidation
    labels := .ofList [("tenant", "-"), ("reason", "constructor")]
    value  := .finite 1 }]⟩)]

theorem not_bearerAccounts : ¬∀ localeCompare snapshot history maxGapMs, snapshot.failure = none →
    snapshot.families.get? jwtValidation ≠ none → Accounts localeCompare snapshot history maxGapMs := by
  intro h
  have hr := (h compare inheritedReason [] .nan rfl nofun).rows
  rw [rowsAccount_iff <| byReasonOf_perm rfl] at hr
  exact hr "constructor" (List.mem_singleton_self _) <| by simp [PlainObject.members]

end Accounting

end JwtAuth
