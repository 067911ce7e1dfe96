import LoxilbUi.Hooks.Theorems.Quotas

-- What becomes of the quotas that are stored for a tenant when an edit of them is sent.

namespace ConfirmPredicates

open AI LastWrite

variable {draft : TenantRateLimitMod} {persisted limits : List ModelRateLimit}
variable {limit : ModelRateLimit} {model : String} {q : JsNumber} {seen names : List String}

section Gateway

def quotaOfRow (limit : ModelRateLimit) : JsNumber :=
  limit.tokensPerMin.getD 0

-- One row of a write, as the gateway takes it: a positive quota sets the model, any other removes it.
def upsertRow (stored : Dict JsNumber) (limit : ModelRateLimit) : Dict JsNumber :=
  if Positive (quotaOfRow limit) then stored.set (limit.model.getD "") (quotaOfRow limit)
  else stored.without [limit.model.getD ""]

-- The rows are applied in order, and a model that they do not name is left alone.
def upsert (stored : Dict JsNumber) (limits : List ModelRateLimit) : Dict JsNumber :=
  limits.foldl upsertRow stored

theorem get?_upsertRow {stored : Dict JsNumber} : (upsertRow stored limit).get? model =
    if limit.model.getD "" = model then (some <| quotaOfRow limit).filter (Positive ·)
    else stored.get? model := by
  rw [upsertRow, Option.filter_some]
  by_cases hp : Positive (quotaOfRow limit)
  · simp [hp, eq_comm]
  · simp [hp, eq_comm]

theorem get?_upsert {stored : Dict JsNumber} : (upsert stored limits).get? model =
    ((last (fun limit => limit.model.getD "") model limits).map fun limit =>
      (some <| quotaOfRow limit).filter (Positive ·)).getD (stored.get? model) :=
  foldl_last upsertRow (·.get? model) _ stored fun _ _ => get?_upsertRow

end Gateway

section Edit

def rowsOfDraft (draft : TenantRateLimitMod) : List ModelRateLimit :=
  draft.modelLimits.getD []

-- What the form sends of a draft.
def submittedOf (draft : TenantRateLimitMod) (persisted : List ModelRateLimit) : TenantRateLimitMod :=
  { draft with modelLimits := some <| reconcileTenantModelLimits (rowsOfDraft draft) persisted }

def sentRows (draft : TenantRateLimitMod) (persisted : List ModelRateLimit) : List ModelRateLimit :=
  (normalizeTenantRateLimit <| submittedOf draft persisted).modelLimits.getD []

-- A row of the draft or of what was persisted names the model.
def Named (draft : TenantRateLimitMod) (persisted : List ModelRateLimit) (model : String) : Prop :=
  model ≠ "" ∧ ∃ limit ∈ rowsOfDraft draft ++ persisted, limit.name = model

theorem Named.trim_eq (h : Named draft persisted model) : JsString.trim model = model := by
  obtain ⟨-, limit, -, rfl⟩ := h
  exact JsString.trim_trim

theorem name_trimModel : (trimModel limit).name = limit.name := by
  obtain ⟨_ | model, tpm⟩ := limit
  · rfl
  · exact JsString.trim_trim

theorem model_trimModel : (trimModel limit).model.getD "" = limit.name := by
  obtain ⟨_ | model, tpm⟩ := limit
  · exact JsString.trim_empty.symm
  · rfl

theorem normalized_rows {data : TenantRateLimitMod} :
    (normalizeTenantRateLimit data).modelLimits.getD [] = (rowsOfDraft data).map trimModel := by
  obtain ⟨_, _, _, _, _, _ | _ | ⟨limit, limits⟩⟩ := data <;> rfl

section Tombstones

variable {current tombstoned : List String}

theorem name_name {tpm : Option JsNumber} :
    ModelRateLimit.name { model := limit.name, tokensPerMin := tpm } = limit.name :=
  JsString.trim_trim

-- What is taken out: every model that was persisted and is not shown.
theorem mem_name_tombstones :
    model ∈ (tombstones current tombstoned persisted).map ModelRateLimit.name ↔
      model ≠ "" ∧ model ∉ current ∧ model ∉ tombstoned ∧
        model ∈ persisted.map ModelRateLimit.name := by
  induction persisted generalizing tombstoned
  case nil => simp [tombstones]
  case cons limit persisted hi =>
    simp only [tombstones]
    split
    case isTrue h =>
      simp only [Bool.or_eq_true, decide_eq_true_eq] at h
      rw [hi, List.map_cons, List.mem_cons]
      refine and_congr_right fun hn => and_congr_right fun hc => and_congr_right fun ht => ?_
      refine ⟨.inr, fun hm => hm.resolve_left ?_⟩
      rintro rfl
      exact h.elim (fun h => h.elim hn hc) ht
    case isFalse h =>
      simp only [Bool.or_eq_true, decide_eq_true_eq, not_or] at h
      rw [List.map_cons, List.map_cons, List.mem_cons, List.mem_cons, name_name, hi, List.mem_cons]
      obtain ⟨⟨hn, hc⟩, ht⟩ := h
      by_cases hm : model = limit.name
      · subst hm
        exact iff_of_true (.inl rfl) ⟨hn, hc, ht, .inl rfl⟩
      · simp [hm]

theorem tombstones_nodup :
    ((tombstones current tombstoned persisted).map ModelRateLimit.name).Nodup := by
  induction persisted generalizing tombstoned
  case nil => simp [tombstones]
  case cons limit persisted hi =>
    simp only [tombstones]
    split
    case isTrue  => exact hi
    case isFalse =>
      rw [List.map_cons, name_name]
      refine List.nodup_cons.mpr ⟨fun hm => ?_, hi⟩
      exact (mem_name_tombstones.mp hm).2.2.1 <| List.mem_cons_self

theorem tombstones_zero (h : limit ∈ tombstones current tombstoned persisted) :
    quotaOfRow limit = 0 := by
  induction persisted generalizing tombstoned
  case nil => simp [tombstones] at h
  case cons l persisted hi =>
    simp only [tombstones] at h
    split at h
    case isTrue  => exact hi h
    case isFalse =>
      obtain rfl | h := List.mem_cons.mp h
      · rfl
      · exact hi h

end Tombstones

section Valid

theorem errorIf_eq_nil {c : Bool} {message : String} : errorIf c message = [] ↔ c = false := by
  cases c <;> simp [errorIf]

theorem of_modelLimitErrors {index : Nat} (h : modelLimitErrors seen index limits = []) :
    (∀ limit ∈ limits, limit.model.getD "" ≠ "" ∧ limit.model.getD "" ∉ seen ∧
      isNonNegativeSafeInteger limit.tokensPerMin = true) ∧
    (limits.map fun limit => limit.model.getD "").Nodup := by
  induction limits generalizing seen index
  case nil => simp
  case cons limit limits hi =>
    simp only [modelLimitErrors, List.append_eq_nil_iff, errorIf_eq_nil] at h
    obtain ⟨⟨⟨hb, hs⟩, ht⟩, h⟩ := h
    simp only [decide_eq_false_iff_not] at hb
    have hs : limit.model.getD "" ∉ seen := by simpa [hb] using hs
    rw [if_neg (by simp [hb, hs])] at h
    obtain ⟨hl, hn⟩ := hi h
    refine ⟨fun l hm => ?_, List.nodup_cons.mpr ⟨fun hm => ?_, hn⟩⟩
    · obtain rfl | hm := List.mem_cons.mp hm
      · exact ⟨hb, hs, by simpa using ht⟩
      · obtain ⟨hb, hs, ht⟩ := hl l hm
        exact ⟨hb, fun hc => hs <| List.mem_cons_of_mem _ hc, ht⟩
    · obtain ⟨l, hm, he⟩ := List.mem_map.mp hm
      exact (hl l hm).2.1 <| he ▸ List.mem_cons_self

-- What a draft is that the form lets through.
structure ValidDraft (draft : TenantRateLimitMod) : Prop where
  rps          : draft.rps.isSome → isNonNegativeSafeInteger draft.rps
  tokensPerMin : draft.tokensPerMin.isSome → isNonNegativeSafeInteger draft.tokensPerMin
  burstPct     : draft.burstPct.isSome → isNonNegativeSafeInteger draft.burstPct
  named        : ∀ limit ∈ rowsOfDraft draft, limit.name ≠ ""
  quotas       : ∀ limit ∈ rowsOfDraft draft, isNonNegativeSafeInteger limit.tokensPerMin
  distinct     : ((rowsOfDraft draft).map ModelRateLimit.name).Nodup

theorem ValidDraft.of_validate (h : validateTenantRateLimit draft = []) : ValidDraft draft := by
  simp only [validateTenantRateLimit, List.append_eq_nil_iff, errorIf_eq_nil] at h
  obtain ⟨⟨⟨⟨-, hr⟩, ht⟩, hb⟩, hm⟩ := h
  rw [normalized_rows] at hm
  obtain ⟨hl, hn⟩ := of_modelLimitErrors hm
  simp only [List.forall_mem_map, model_trimModel] at hl
  refine ⟨fun hs => ?_, fun hs => ?_, fun hs => ?_, fun l hm => (hl l hm).1,
    fun l hm => (hl l hm).2.2, ?_⟩
  · simpa [normalizeTenantRateLimit, hs] using hr
  · simpa [normalizeTenantRateLimit, hs] using ht
  · obtain ⟨burst, hs⟩ := Option.isSome_iff_exists.mp hs
    simp only [normalizeTenantRateLimit, hs, Option.any_some, Bool.or_eq_false_iff] at hb
    rw [hs]
    simpa using hb.1
  · rw [List.map_map] at hn
    have he (l : ModelRateLimit) : (trimModel l).model.getD "" = l.name := model_trimModel
    exact List.map_congr_left (fun l _ => he l) ▸ hn

end Valid

section Sent

-- The rows of a write before their names are trimmed.
def unsent (draft : TenantRateLimitMod) (persisted : List ModelRateLimit) : List ModelRateLimit :=
  reconcileTenantModelLimits (rowsOfDraft draft) persisted

theorem sentRows_eq : sentRows draft persisted = (unsent draft persisted).map trimModel :=
  normalized_rows

theorem mem_name_unsent (hv : ValidDraft draft) :
    model ∈ (unsent draft persisted).map ModelRateLimit.name ↔ Named draft persisted model := by
  have hb : model ∈ (rowsOfDraft draft).map ModelRateLimit.name → model ≠ "" := by
    rintro hm rfl
    obtain ⟨limit, hl, hn⟩ := List.mem_map.mp hm
    exact hv.named limit hl hn
  have hc : model ∈ ((rowsOfDraft draft).map ModelRateLimit.name).filter (· ≠ "") ↔
      model ∈ (rowsOfDraft draft).map ModelRateLimit.name := by
    simpa using fun limit hl hn hm => hb (List.mem_map.mpr ⟨limit, hl, hn⟩) hm
  rw [Named, ← List.mem_map, unsent, reconcileTenantModelLimits, List.map_append, List.map_append,
    List.mem_append, List.mem_append, mem_name_tombstones, hc]
  constructor
  case mp =>
    rintro (hm | ⟨hn, -, -, hm⟩)
    · exact ⟨hb hm, .inl hm⟩
    · exact ⟨hn, .inr hm⟩
  case mpr =>
    rintro ⟨hn, hm⟩
    by_cases hd : model ∈ (rowsOfDraft draft).map ModelRateLimit.name
    · exact .inl hd
    · exact .inr ⟨hn, hd, List.not_mem_nil, hm.resolve_left hd⟩

theorem unsent_nodup (hv : ValidDraft draft) :
    ((unsent draft persisted).map ModelRateLimit.name).Nodup := by
  rw [unsent, reconcileTenantModelLimits, List.map_append]
  refine List.nodup_append.mpr ⟨hv.distinct, tombstones_nodup, ?_⟩
  rintro model hm _ ht rfl
  obtain ⟨hn, hc, -⟩ := mem_name_tombstones.mp ht
  exact hc <| List.mem_filter.mpr ⟨hm, by simpa using hn⟩

theorem last_unsent (hv : ValidDraft draft) (hn : Named draft persisted model) :
    ∃ limit ∈ unsent draft persisted, limit.name = model ∧
      last ModelRateLimit.name model (unsent draft persisted) = some limit := by
  obtain ⟨limit, hl, he⟩ := List.mem_map.mp <| (mem_name_unsent hv).mpr hn
  exact ⟨limit, hl, he, (Once.of_nodup <| unsent_nodup hv).last_eq_some_iff.mpr ⟨hl, he⟩⟩

theorem last_unsent_eq_none (hv : ValidDraft draft) (hn : ¬Named draft persisted model) :
    last ModelRateLimit.name model (unsent draft persisted) = none :=
  last_eq_none_iff.mpr fun limit hl he =>
    hn <| (mem_name_unsent hv).mp <| List.mem_map.mpr ⟨limit, hl, he⟩

end Sent

section Result

variable {stored : Dict JsNumber}

theorem get?_edited : (upsert stored (sentRows draft persisted)).get? model =
    ((last ModelRateLimit.name model (unsent draft persisted)).map fun limit =>
      (some <| quotaOfRow limit).filter (Positive ·)).getD (stored.get? model) := by
  rw [get?_upsert, sentRows_eq, last_map, Option.map_map]
  simp only [model_trimModel]
  rfl

theorem get?_edited_of_named (hv : ValidDraft draft) (hn : Named draft persisted model) :
    (upsert stored (sentRows draft persisted)).get? model = some q ↔
      ∃ limit ∈ rowsOfDraft draft, limit.name = model ∧ limit.tokensPerMin = some q ∧
        Positive q := by
  have hz : ¬Positive 0 := by decide
  rw [get?_edited]
  constructor
  case mp =>
    obtain ⟨limit, hl, he, hlast⟩ := last_unsent hv hn
    rw [hlast, Option.map_some, Option.getD_some, Option.filter_eq_some_iff, Option.some_inj]
    rintro ⟨rfl, hp⟩
    have hp := of_decide_eq_true hp
    obtain hd | ht := List.mem_append.mp hl
    · refine ⟨limit, hd, he, ?_, hp⟩
      obtain ⟨_, _ | tpm⟩ := limit
      · exact absurd hp hz
      · rfl
    · exact absurd (tombstones_zero ht ▸ hp) hz
  case mpr =>
    rintro ⟨limit, hd, he, hq, hp⟩
    have hl : limit ∈ unsent draft persisted := List.mem_append_left _ hd
    rw [(Once.of_nodup <| unsent_nodup hv).last_eq_some_iff.mpr ⟨hl, he⟩]
    simp [quotaOfRow, hq, hp]

theorem get?_edited_of_not_named (hv : ValidDraft draft) (hn : ¬Named draft persisted model) :
    (upsert stored (sentRows draft persisted)).get? model = stored.get? model := by
  rw [get?_edited, last_unsent_eq_none hv hn]
  rfl

end Result

section Confirmation

variable {stored : Dict JsNumber} {s : ServedTenantRateLimit}

-- What the confirmation asks of a model is what the write leaves of it.
theorem get?_asked (hm : model ≠ "") :
    (modelQuotas (rowsOf (normalizeTenantRateLimit <| submittedOf draft persisted).modelLimits)
      true).get? model =
    (last ModelRateLimit.name model (unsent draft persisted)).map fun limit =>
      if Positive (quotaOfRow limit) then quotaOfRow limit else 0 := by
  have hr : rowsOf (normalizeTenantRateLimit <| submittedOf draft persisted).modelLimits =
      (unsent draft persisted).map fun limit => some (trimModel limit) := by
    rw [rowsOf, normalized_rows, List.map_map]
    rfl
  have hn (limit : ModelRateLimit) : nameOf (some <| trimModel limit) = limit.name := name_trimModel
  rw [get?_modelQuotas hm, hr, last_map]
  simp only [hn]
  cases last ModelRateLimit.name model (unsent draft persisted)
  case none       => rfl
  case some limit =>
    have hq : tpmOf (some <| trimModel limit) = quotaOfRow limit := rfl
    simp only [Option.map_some, Option.bind_some, kept, hq]
    split <;> rfl

theorem asked_of_named (stored : Dict JsNumber) (hv : ValidDraft draft) (hn : Named draft persisted model) :
    (modelQuotas (rowsOf (normalizeTenantRateLimit <| submittedOf draft persisted).modelLimits)
      true).get? model =
    some (((upsert stored (sentRows draft persisted)).get? model).getD 0) := by
  obtain ⟨limit, -, -, hl⟩ := last_unsent hv hn
  rw [get?_asked hn.1, get?_edited, hl, Option.map_some, Option.map_some, Option.getD_some,
    Option.filter_some]
  by_cases hp : Positive (quotaOfRow limit) <;> simp [hp]

theorem asked_of_not_named (hv : ValidDraft draft) (hn : ¬Named draft persisted model) :
    (modelQuotas (rowsOf (normalizeTenantRateLimit <| submittedOf draft persisted).modelLimits)
      true).get? model = none := by
  by_cases hm : model = ""
  · rw [hm, get?_modelQuotas_blank]
  · rw [get?_asked hm, last_unsent_eq_none hv hn]
    rfl

theorem quotaOf_positive (h : quotaOf rows model = some q) : Positive q := by
  obtain ⟨row, -, hk⟩ := Option.bind_eq_some_iff.mp h
  rw [kept] at hk
  split at hk
  case isTrue hp => exact Option.some_inj.mp hk ▸ hp
  case isFalse   => simp at hk

-- Quotas are positive, so that none and a zero are not mixed up.
theorem getD_strictEq_iff {a b : Option JsNumber} (ha : ∀ q, a = some q → Positive q)
    (hb : ∀ q, b = some q → Positive q) : (a.getD 0).strictEq (b.getD 0) = true ↔ a = b := by
  have hz : ¬Positive 0 := by decide
  cases b
  case none =>
    rw [Option.getD_none, JsNumber.strictEq_zero_iff]
    cases a
    case none   => simp
    case some q => exact iff_of_false (fun hq : q = 0 => hz <| hq ▸ ha q rfl) (by simp)
  case some q =>
    rw [Option.getD_some, (hb q rfl).strictEq_iff]
    cases a
    case none   => exact iff_of_false (fun hq : 0 = q => hz <| hq ▸ hb q rfl) (by simp)
    case some p => simp

theorem edited_positive (hv : ValidDraft draft) (hn : Named draft persisted model)
    (h : (upsert stored (sentRows draft persisted)).get? model = some q) : Positive q := by
  obtain ⟨-, -, -, -, hp⟩ := (get?_edited_of_named hv hn).mp h
  exact hp

theorem quotas_applied_iff (stored : Dict JsNumber) (hv : ValidDraft draft) :
    ((modelQuotas (rowsOf (normalizeTenantRateLimit <| submittedOf draft persisted).modelLimits)
      true).entries.all fun (model, asked) =>
        (((modelQuotas rows false).get? model).getD 0).strictEq asked) = true ↔
    ∀ model, Named draft persisted model →
      quotaOf rows model = (upsert stored (sentRows draft persisted)).get? model := by
  rw [List.all_eq_true]
  constructor
  case mp =>
    intro h model hn
    have he := h _ <| Dict.get?_eq_some_iff.mp <| asked_of_named stored hv hn
    dsimp only at he
    rw [get?_modelQuotas hn.1] at he
    exact (getD_strictEq_iff (fun _ => quotaOf_positive) fun _ => edited_positive hv hn).mp he
  case mpr =>
    rintro h ⟨model, asked⟩ hm
    have hq := Dict.get?_eq_some_iff.mpr hm
    by_cases hn : Named draft persisted model
    · rw [asked_of_named stored hv hn] at hq
      obtain rfl := Option.some_inj.mp hq
      dsimp only
      rw [get?_modelQuotas hn.1]
      exact (getD_strictEq_iff (fun _ => quotaOf_positive) fun _ => edited_positive hv hn).mpr <|
        h model hn
    · rw [asked_of_not_named hv hn] at hq
      contradiction

-- What is read back of a tenant for which `quotas` are stored after the write, in any order.
structure ReadBack (draft : TenantRateLimitMod) (quotas : Dict JsNumber)
    (s : ServedTenantRateLimit) : Prop where
  tenantId          : s.tenantId = some (JsString.trim draft.tenantId)
  rps               : s.rps.getD 0 = draft.rps.getD 0
  tokensPerMin      : s.tokensPerMin.getD 0 = draft.tokensPerMin.getD 0
  burstPct          : s.burstPct.getD 0 = draft.burstPct.getD 0
  priorityClass     : draft.priorityClass.isSome →
    s.priorityClass.join.getD "" = draft.priorityClass.join.getD ""
  defaultObjective  : draft.defaultObjective.isSome →
    s.defaultObjective.join.getD "" = draft.defaultObjective.join.getD ""
  allowedObjectives : draft.allowedObjectives.isSome →
    s.allowedObjectives.join.getD [] = draft.allowedObjectives.join.getD []
  modelLimits       : (s.modelLimits.getD []).Perm <| quotas.entries.map fun (model, q) =>
    some { model := some model, tokensPerMin := some q }

-- The aggregates and the models that the write named are served as the write made them.
structure Agrees (draft : TenantRateLimitMod) (persisted : List ModelRateLimit)
    (quotas : Dict JsNumber) (s : ServedTenantRateLimit) : Prop where
  rps          : s.rps.getD 0 = draft.rps.getD 0
  tokensPerMin : s.tokensPerMin.getD 0 = draft.tokensPerMin.getD 0
  burstPct     : s.burstPct.getD 0 = draft.burstPct.getD 0
  named        : ∀ model, Named draft persisted model →
    quotaOf (s.modelLimits.getD []) model = quotas.get? model

theorem strictEq_getD_iff {asked served : Option JsNumber}
    (h : asked.isSome → isNonNegativeSafeInteger asked) :
    (asked.getD 0).strictEq (served.getD 0) = true ↔ served.getD 0 = asked.getD 0 := by
  obtain ⟨d, hd⟩ : ∃ d, asked.getD 0 = .finite d := by
    cases asked
    case none   => exact ⟨_, rfl⟩
    case some n =>
      cases n
      case finite d => exact ⟨d, rfl⟩
      all_goals simp [isNonNegativeSafeInteger, isSafeInteger] at h
  rw [hd]
  simp [JsNumber.strictEq, eq_comm]

theorem ReadBack.samePriority {quotas : Dict JsNumber} (h : ReadBack draft quotas s) :
    samePriorityFields draft.toPriorityAsked s.toPriorityAsked = true := by
  have hi {α : Type} (o : Option α) (p : Prop) : (o.isNone = true ∨ p) ↔ (o.isSome → p) := by
    cases o <;> simp
  simp only [samePriorityFields, Bool.and_eq_true, Bool.or_eq_true, decide_eq_true_eq, hi]
  exact ⟨⟨fun hs => (h.priorityClass hs).symm, fun hs => (h.defaultObjective hs).symm⟩,
    fun hs => congrArg JsString.joinComma (h.allowedObjectives hs).symm⟩

theorem tenantRateLimitApplied_iff (stored : Dict JsNumber) (hv : ValidDraft draft) :
    tenantRateLimitApplied (submittedOf draft persisted) (some s) = true ↔
      s.tenantId = some (JsString.trim draft.tenantId) ∧
      samePriorityFields draft.toPriorityAsked s.toPriorityAsked = true ∧
      Agrees draft persisted (upsert stored (sentRows draft persisted)) s := by
  have hr : (normalizeTenantRateLimit <| submittedOf draft persisted).rps = draft.rps := rfl
  have ht : (normalizeTenantRateLimit <| submittedOf draft persisted).tokensPerMin =
    draft.tokensPerMin := rfl
  have hb : (normalizeTenantRateLimit <| submittedOf draft persisted).burstPct = draft.burstPct := rfl
  simp only [tenantRateLimitApplied, Option.any_some, Bool.and_eq_true, decide_eq_true_eq,
    quotas_applied_iff stored hv, sameCount, hr, ht, hb, strictEq_getD_iff hv.rps,
    strictEq_getD_iff hv.tokensPerMin, strictEq_getD_iff hv.burstPct]
  constructor
  case mp =>
    rintro ⟨⟨⟨⟨⟨hi, hr⟩, ht⟩, hb⟩, hp⟩, hq⟩
    exact ⟨hi, hp, hr, ht, hb, hq⟩
  case mpr =>
    rintro ⟨hi, hp, hr, ht, hb, hq⟩
    exact ⟨⟨⟨⟨⟨hi, hr⟩, ht⟩, hb⟩, hp⟩, hq⟩

-- Whatever is stored under a name of the edit, but for the blanks around it, has that very name.
def Clean (draft : TenantRateLimitMod) (persisted : List ModelRateLimit) (quotas : Dict JsNumber) :
    Prop :=
  ∀ model ∈ quotas.keys, Named draft persisted (JsString.trim model) → JsString.trim model = model

theorem Clean.edited (hv : ValidDraft draft) (h : Clean draft persisted stored) :
    Clean draft persisted <| upsert stored (sentRows draft persisted) := by
  intro model hm hn
  by_cases hs : Named draft persisted model
  · exact hs.trim_eq
  · refine h model ?_ hn
    obtain ⟨q, hq⟩ := Dict.mem_keys_iff.mp hm
    exact Dict.mem_keys_iff.mpr ⟨q, get?_edited_of_not_named hv hs ▸ hq⟩

theorem quotaOf_readBack {quotas : Dict JsNumber} (hc : Clean draft persisted quotas)
    (hn : Named draft persisted model) (hp : ∀ q, quotas.get? model = some q → Positive q)
    (hr : rows.Perm <| quotas.entries.map fun (model, q) =>
      some { model := some model, tokensPerMin := some q }) :
    quotaOf rows model = quotas.get? model := by
  have hk {k : String} {q : JsNumber} (he : (k, q) ∈ quotas.entries) (ht : JsString.trim k = model) :
      k = model := by
    rw [← hc k (Dict.mem_keys_iff.mpr ⟨q, Dict.get?_eq_some_iff.mpr he⟩) (ht ▸ hn), ht]
  have ho : Once nameOf model rows := by
    refine Once.perm (List.pairwise_map.mpr ?_) hr.symm
    refine (List.pairwise_map.mp quotas.nodup).imp_of_mem ?_
    rintro ⟨k, q⟩ ⟨k', q'⟩ he he' hne ⟨ht, ht'⟩
    exact hne <| (hk he ht).trans (hk he' ht').symm
  refine Option.ext fun q => ?_
  rw [quotaOf_eq_some_iff ho]
  constructor
  case mp =>
    rintro ⟨-, row, hm, ht, rfl⟩
    obtain ⟨⟨k, q⟩, he, rfl⟩ := List.mem_map.mp <| hr.mem_iff.mp hm
    exact hk he ht ▸ Dict.get?_eq_some_iff.mpr he
  case mpr =>
    intro hq
    refine ⟨hp q hq, _, hr.mem_iff.mpr <| List.mem_map.mpr ⟨_, Dict.get?_eq_some_iff.mp hq, rfl⟩, ?_, rfl⟩
    exact hn.trim_eq

theorem ReadBack.applied (hv : ValidDraft draft) (hc : Clean draft persisted stored)
    (h : ReadBack draft (upsert stored (sentRows draft persisted)) s) :
    tenantRateLimitApplied (submittedOf draft persisted) (some s) = true := by
  refine (tenantRateLimitApplied_iff stored hv).mpr ⟨h.tenantId, h.samePriority, h.rps,
    h.tokensPerMin, h.burstPct, fun model hn => ?_⟩
  exact quotaOf_readBack (hc.edited hv) hn (fun _ => edited_positive hv hn) h.modelLimits

end Confirmation

-- What an edit does to what is stored, and what its confirmation says of it.
structure DoesWhatIsShown (draft : TenantRateLimitMod) (persisted : List ModelRateLimit)
    (stored edited : Dict JsNumber) : Prop where
  shown     : ∀ model, Named draft persisted model → ∀ q, edited.get? model = some q ↔
    ∃ limit ∈ rowsOfDraft draft, limit.name = model ∧ limit.tokensPerMin = some q ∧ Positive q
  others    : ∀ model, ¬Named draft persisted model → edited.get? model = stored.get? model
  confirmed : ∀ s, ReadBack draft edited s →
    tenantRateLimitApplied (submittedOf draft persisted) (some s) = true
  refused   : ∀ s, ¬Agrees draft persisted edited s →
    tenantRateLimitApplied (submittedOf draft persisted) (some s) = false

-- The rows that the form was filled with are among what is stored.
def Holds (stored : Dict JsNumber) (persisted : List ModelRateLimit) : Prop :=
  ∀ limit ∈ persisted, ∃ model q, limit = { model := some model, tokensPerMin := some q } ∧
    stored.get? model = some q

theorem edit_does_what_is_shown {stored : Dict JsNumber} (hv : validateTenantRateLimit draft = [])
    (hc : Clean draft persisted stored) :
    DoesWhatIsShown draft persisted stored <| upsert stored (sentRows draft persisted) := by
  have hv := ValidDraft.of_validate hv
  constructor
  case shown     => exact fun _ hn _ => get?_edited_of_named hv hn
  case others    => exact fun _ hn => get?_edited_of_not_named hv hn
  case confirmed => exact fun _ hs => hs.applied hv hc
  case refused   =>
    intro s hs
    refine Bool.eq_false_iff.mpr fun ha => hs ?_
    exact ((tenantRateLimitApplied_iff stored hv).mp ha).2.2

def renamed : TenantRateLimitMod where
  priorityClass     := none
  defaultObjective  := none
  allowedObjectives := none
  tenantId          := "acme "
  rps               := some 5
  tokensPerMin      := none
  burstPct          := some 0
  modelLimits       := some [⟨some " llama", some 100⟩, ⟨some "paused", some 0⟩]

def renamedFrom : List ModelRateLimit :=
  [⟨some "llama-2", some 50⟩]

def storedBefore : Dict JsNumber :=
  .ofList [("llama-2", 50), ("others", 7)]

theorem edit_does_what_is_shown_renamed : DoesWhatIsShown renamed renamedFrom storedBefore <|
    upsert storedBefore (sentRows renamed renamedFrom) :=
  edit_does_what_is_shown (by decide) <| by
    intro model hm _
    obtain rfl | rfl : model = "llama-2" ∨ model = "others" := by
      simpa using (show model ∈ ["llama-2", "others"] from hm)
    all_goals decide

-- A name that was stored with a blank is not taken out by the name without it.
theorem not_edit_does_what_is_shown : ¬∀ draft persisted stored, Holds stored persisted →
    validateTenantRateLimit draft = [] →
    DoesWhatIsShown draft persisted stored (upsert stored (sentRows draft persisted)) := by
  intro h
  have hs := (h { renamed with modelLimits := none } [⟨some " m", some 7⟩] (.ofList [(" m", 7)])
    (by simp [Holds, Dict.get?_ofList]) (by decide)).confirmed
    { renamed with
      priorityClass := none, defaultObjective := none, allowedObjectives := none, tenantId := "acme"
      modelLimits := some [some ⟨some " m", some 7⟩] }
    ⟨rfl, rfl, rfl, rfl, fun _ => rfl, fun _ => rfl, fun _ => rfl, by decide⟩
  revert hs
  decide

end Edit

end ConfirmPredicates
