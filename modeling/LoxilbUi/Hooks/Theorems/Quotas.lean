import LoxilbUi.Hooks.ConfirmPredicates
import LoxilbUi.Library.LastWrite

-- What the confirmations of the quota writes say of the quotas that are served.

namespace ConfirmPredicates

open AI LastWrite

variable {rows rows' : List (Option ModelRateLimit)} {row : Option ModelRateLimit} {model : String}
variable {q q' : JsNumber} {keepRemovals : Bool} {quotas a b : Dict JsNumber}

section ModelQuotas

def Positive (q : JsNumber) : Prop :=
  JsNumber.lt 0 q = true

instance : DecidablePred Positive :=
  fun _ => inferInstanceAs (Decidable (_ = true))

-- What a row leaves under the model it names.
def kept (keepRemovals : Bool) (row : Option ModelRateLimit) : Option JsNumber :=
  if Positive (tpmOf row) then some <| tpmOf row else if keepRemovals then some 0 else none

-- The quota that rows give a model: a positive one, of the last row that names it.
def quotaOf (rows : List (Option ModelRateLimit)) (model : String) : Option JsNumber :=
  (last nameOf model rows).bind (kept false)

theorem Positive.strictEq_iff (h : Positive q) : q'.strictEq q = true ↔ q' = q := by
  cases q'
  case nan =>
    refine iff_of_false (by simp [JsNumber.strictEq]) ?_
    rintro rfl
    contradiction
  all_goals simp [JsNumber.strictEq]

theorem addQuota_get? (hm : model ≠ "") : (addQuota keepRemovals quotas row).get? model =
    if nameOf row = model then kept keepRemovals row else quotas.get? model := by
  simp only [addQuota, kept, Positive]
  by_cases h : nameOf row = model
  · rw [if_pos h, if_neg (h ▸ hm)]
    split
    case isTrue hp  => simp [h, hp]
    case isFalse hp => split <;> simp_all
  · rw [if_neg h]
    split
    · rfl
    · split
      · simp [Ne.symm h]
      · split <;> simp [Ne.symm h]

theorem addQuota_blank (h : quotas.get? "" = none) :
    (addQuota keepRemovals quotas row).get? "" = none := by
  rw [addQuota]
  split
  case isTrue     => exact h
  case isFalse hn =>
    split
    · simp [h, Ne.symm hn]
    · split <;> simp [h, Ne.symm hn]

theorem get?_modelQuotas (hm : model ≠ "") : (modelQuotas rows keepRemovals).get? model =
    (last nameOf model rows).bind (kept keepRemovals) := by
  rw [modelQuotas, foldl_last (addQuota keepRemovals) (·.get? model) (kept keepRemovals) .empty
    fun _ _ => addQuota_get? hm]
  cases last nameOf model rows <;> rfl

theorem get?_modelQuotas_blank : (modelQuotas rows keepRemovals).get? "" = none := by
  rw [modelQuotas]
  induction rows using List.reverseRecOn
  case nil => rfl
  case append_singleton rows row hi =>
    rw [List.foldl_concat]
    exact addQuota_blank hi

theorem get?_modelQuotas_positive (h : (modelQuotas rows false).get? model = some q) :
    Positive q := by
  by_cases hm : model = ""
  · rw [hm, get?_modelQuotas_blank] at h
    contradiction
  · rw [get?_modelQuotas hm] at h
    obtain ⟨row, -, hr⟩ := Option.bind_eq_some_iff.mp h
    rw [kept] at hr
    split at hr
    · exact Option.some_inj.mp hr ▸ ‹_›
    · simp at hr

-- Maps of one size, of which one holds what the other does, are the same map.
theorem same_quotas_iff (ha : ∀ model q, a.get? model = some q → Positive q) :
    (a.size = b.size ∧ ∀ e ∈ a.entries, (b.get? e.1).any (·.strictEq e.2) = true) ↔
      ∀ model, a.get? model = b.get? model := by
  have hany {model : String} {q : JsNumber} (h : a.get? model = some q) :
      (b.get? model).any (·.strictEq q) = true ↔ b.get? model = some q := by
    rw [Option.any_eq_true]
    refine ⟨fun ⟨q', hb, hq⟩ => ?_, fun hb => ⟨q, hb, (ha model q h).strictEq_iff.mpr rfl⟩⟩
    rwa [(ha model q h).strictEq_iff.mp hq] at hb
  constructor
  case mp =>
    rintro ⟨hs, he⟩ model
    have hm {model : String} {q : JsNumber} (h : a.get? model = some q) : b.get? model = some q :=
      (hany h).mp <| he (model, q) <| Dict.get?_eq_some_iff.mp h
    have hk : a.keys ⊆ b.keys := by
      intro model h
      obtain ⟨q, h⟩ := Dict.mem_keys_iff.mp h
      exact Dict.mem_keys_iff.mpr ⟨q, hm h⟩
    cases h : a.get? model
    case some q => exact (hm h).symm
    case none   => exact (Dict.get?_eq_none_of_keys (Dict.keys_of_size_eq hs hk) h).symm
  case mpr =>
    intro h
    refine ⟨Dict.size_eq_of_keys fun model => ?_, fun e he => ?_⟩
    · rw [Dict.mem_keys_iff, Dict.mem_keys_iff, h]
    · have hq := Dict.get?_eq_some_iff.mpr he
      exact (hany hq).mpr <| (h e.1).symm.trans hq

end ModelQuotas

section User

variable {submitted : UserRateLimitMod} {served : Option ServedUserRateLimit}
variable {limits : List ModelRateLimit} {s : ServedUserRateLimit}

-- No two rows name one model.
def Distinct (rows : List (Option ModelRateLimit)) : Prop :=
  ∀ model ≠ "", Once nameOf model rows

-- What was sent for a user is what is served.
structure HoldsUserQuota (submitted : UserRateLimitMod) (s : ServedUserRateLimit) : Prop where
  tenantId     : s.tenantId = some (JsString.trim <| submitted.tenantId.getD "")
  userId       : s.userId = some (JsString.trim <| submitted.userId.getD "")
  rps          : (submitted.rps.getD 0).strictEq (s.rps.getD 0)
  burstSize    : (submitted.burstSize.getD 0).strictEq (s.burstSize.getD 0)
  tokensPerMin : (submitted.tokensPerMin.getD 0).strictEq (s.tokensPerMin.getD 0)
  quotas       : ∀ model ≠ "", quotaOf (rowsOf submitted.modelLimits) model =
    quotaOf (s.modelLimits.getD []) model

theorem nameOf_trimmed {m : ModelRateLimit} :
    nameOf (some { m with model := some m.name }) = nameOf (some m) :=
  JsString.trim_trim

-- Neither the blanks around a name nor the rows without a name make a difference.
theorem quotaOf_normalizeUserRateLimit (hm : model ≠ "") :
    quotaOf (rowsOf (normalizeUserRateLimit submitted).modelLimits) model =
      quotaOf (rowsOf submitted.modelLimits) model := by
  have hp (m : ModelRateLimit) (h : nameOf (some m) = model) :
      decide (m.model ≠ some "") = true := by
    refine decide_eq_true fun hn => hm ?_
    rw [← h, nameOf, Option.map_some, ModelRateLimit.name, hn]
    exact JsString.trim_empty
  simp only [quotaOf, rowsOf, normalizeUserRateLimit, Option.getD_some, last_map, last_filter hp,
    nameOf_trimmed]
  cases last (fun m => nameOf (some m)) model (submitted.modelLimits.getD []) <;> rfl

theorem quotaOf_blank_iff : (∀ model, (modelQuotas rows false).get? model =
    (modelQuotas rows' false).get? model) ↔ ∀ model ≠ "", quotaOf rows model = quotaOf rows' model := by
  constructor
  case mp =>
    intro h model hm
    rw [quotaOf, quotaOf, ← get?_modelQuotas hm, ← get?_modelQuotas hm, h]
  case mpr =>
    intro h model
    by_cases hm : model = ""
    · rw [hm, get?_modelQuotas_blank, get?_modelQuotas_blank]
    · rw [get?_modelQuotas hm, get?_modelQuotas hm]
      exact h model hm

theorem userRateLimitApplied_iff : userRateLimitApplied submitted served = true ↔
    ∃ s, served = some s ∧ HoldsUserQuota submitted s := by
  rw [userRateLimitApplied, Option.any_eq_true]
  refine exists_congr fun s => and_congr_right fun _ => ?_
  have hq := same_quotas_iff (a := modelQuotas (rowsOf (normalizeUserRateLimit submitted).modelLimits)
    false) (b := modelQuotas (s.modelLimits.getD []) false) fun _ _ => get?_modelQuotas_positive
  have hn : (∀ model ≠ "", quotaOf (rowsOf (normalizeUserRateLimit submitted).modelLimits) model =
      quotaOf (s.modelLimits.getD []) model) ↔ ∀ model ≠ "",
      quotaOf (rowsOf submitted.modelLimits) model = quotaOf (s.modelLimits.getD []) model :=
    forall₂_congr fun model hm => by rw [quotaOf_normalizeUserRateLimit hm]
  rw [quotaOf_blank_iff, hn] at hq
  simp only [Bool.and_eq_true, decide_eq_true_eq, List.all_eq_true, hq]
  constructor
  case mp =>
    rintro ⟨⟨⟨⟨⟨hu, ht⟩, hr⟩, hb⟩, hp⟩, hq⟩
    exact ⟨ht, hu, hr, hb, hp, hq⟩
  case mpr =>
    rintro ⟨ht, hu, hr, hb, hp, hq⟩
    exact ⟨⟨⟨⟨⟨hu, ht⟩, hr⟩, hb⟩, hp⟩, hq⟩

theorem quotaOf_perm (hd : Distinct rows) (hp : rows.Perm rows') (hm : model ≠ "") :
    quotaOf rows model = quotaOf rows' model := by
  rw [quotaOf, quotaOf, (hd model hm).last_perm hp]

-- Rows that name a model once are the map of their positive quotas there.
theorem quotaOf_eq_some_iff (ho : Once nameOf model rows) : quotaOf rows model = some q ↔
    Positive q ∧ ∃ row ∈ rows, nameOf row = model ∧ tpmOf row = q := by
  rw [quotaOf, Option.bind_eq_some_iff]
  constructor
  case mp =>
    rintro ⟨row, hl, hk⟩
    obtain ⟨hr, hn⟩ := last_inv hl
    rw [kept] at hk
    split at hk
    case isTrue hp =>
      obtain rfl := Option.some_inj.mp hk
      exact ⟨hp, row, hr, hn, rfl⟩
    case isFalse => simp at hk
  case mpr =>
    rintro ⟨hp, row, hr, hn, rfl⟩
    exact ⟨row, ho.last_eq_some_iff.mpr ⟨hr, hn⟩, if_pos hp⟩

theorem HoldsUserQuota.congr {submitted' : UserRateLimitMod} {s' : ServedUserRateLimit}
    (h : HoldsUserQuota submitted s)
    (hs : submitted' = { submitted with modelLimits := submitted'.modelLimits })
    (hs' : s' = { s with modelLimits := s'.modelLimits })
    (hq : ∀ model ≠ "", quotaOf (rowsOf submitted.modelLimits) model =
      quotaOf (rowsOf submitted'.modelLimits) model)
    (hq' : ∀ model ≠ "", quotaOf (s.modelLimits.getD []) model =
      quotaOf (s'.modelLimits.getD []) model) : HoldsUserQuota submitted' s' := by
  rw [hs, hs']
  refine ⟨h.tenantId, h.userId, h.rps, h.burstSize, h.tokensPerMin, fun model hm => ?_⟩
  rw [← hq model hm, ← hq' model hm]
  exact h.quotas model hm

-- The confirmation is exact, whatever the order of the rows.
theorem userRateLimitApplied_exact (hd : Distinct (rowsOf submitted.modelLimits)) :
    (userRateLimitApplied submitted served = true ↔ ∃ s, served = some s ∧ HoldsUserQuota submitted s) ∧
    (∀ model ≠ "", ∀ q, quotaOf (rowsOf submitted.modelLimits) model = some q ↔
      Positive q ∧ ∃ row ∈ rowsOf submitted.modelLimits, nameOf row = model ∧ tpmOf row = q) ∧
    (∀ limits, limits.Perm (submitted.modelLimits.getD []) →
      userRateLimitApplied { submitted with modelLimits := some limits } served =
        userRateLimitApplied submitted served) ∧
    ∀ s rows, Distinct (s.modelLimits.getD []) → rows.Perm (s.modelLimits.getD []) →
      userRateLimitApplied submitted (some { s with modelLimits := some rows }) =
        userRateLimitApplied submitted (some s) := by
  refine ⟨userRateLimitApplied_iff, fun model hm q => quotaOf_eq_some_iff <| hd model hm,
    fun limits hp => ?_, fun s rows hds hp => ?_⟩
  · have hq (model : String) (hm : model ≠ "") : quotaOf (rowsOf submitted.modelLimits) model =
        quotaOf (rowsOf (some limits)) model :=
      quotaOf_perm hd (hp.symm.map some) hm
    rw [Bool.eq_iff_iff, userRateLimitApplied_iff, userRateLimitApplied_iff]
    refine exists_congr fun s => and_congr_right fun _ => ⟨fun h => ?_, fun h => ?_⟩
    · exact h.congr rfl rfl (fun model hm => (hq model hm).symm) fun _ _ => rfl
    · exact h.congr rfl rfl hq fun _ _ => rfl
  · have hq (model : String) (hm : model ≠ "") : quotaOf (s.modelLimits.getD []) model =
        quotaOf rows model :=
      quotaOf_perm hds hp.symm hm
    rw [Bool.eq_iff_iff, userRateLimitApplied_iff, userRateLimitApplied_iff]
    simp only [Option.some.injEq, exists_eq_left']
    refine ⟨fun h => ?_, fun h => ?_⟩
    · exact h.congr rfl rfl (fun _ _ => rfl) fun model hm => (hq model hm).symm
    · exact h.congr rfl rfl (fun _ _ => rfl) hq

def twoModels : UserRateLimitMod where
  tenantId     := some "acme"
  userId       := some " bob "
  rps          := some 5
  burstSize    := none
  tokensPerMin := some 0
  modelLimits  := some [⟨some "llama", some 100⟩, ⟨some " qwen", some 200⟩, ⟨some "gone", some 0⟩]

def twoModelsServed : ServedUserRateLimit where
  tenantId     := some "acme"
  userId       := some "bob"
  rps          := some 5
  burstSize    := some 0
  tokensPerMin := none
  modelLimits  := some [some ⟨some "qwen", some 200⟩, none, some ⟨some "llama", some 100⟩]

example : userRateLimitApplied twoModels (some twoModelsServed) = true := by decide

theorem userRateLimitApplied_reversed :
    userRateLimitApplied { twoModels with modelLimits := some [⟨some "gone", some 0⟩,
      ⟨some " qwen", some 200⟩, ⟨some "llama", some 100⟩] } (some twoModelsServed) =
    userRateLimitApplied twoModels (some twoModelsServed) :=
  userRateLimitApplied_exact (fun _ _ => .of_nodup <| by decide) |>.2.2.1 _ <| by decide

end User

end ConfirmPredicates
