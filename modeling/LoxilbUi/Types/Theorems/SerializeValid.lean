import LoxilbUi.Types.Theorems.SerializeStages

-- What the validation finds in a rule whose members were taken out by the serializers.

namespace AIGateway

open LoadBalancer BackendTls
open LBRuleApplied (isZero)

variable {args a b c : JsObject} {k : String} {v engine exactMode : JsValue} {topology : AITopology}
variable {es : List JsObject}

-- Members of the first object are taken out of the second, and none is changed, backend TLS apart.
def Trims (a b : JsObject) : Prop :=
  ∀ k ∉ tlsFields, b.get k = a.get k ∨ b.get k = .undefined

namespace Trims

theorem trans (h : Trims a b) (h' : Trims b c) : Trims a c := by
  intro k hk
  obtain hc | hc := h' k hk
  · exact (h k hk).imp hc.trans hc.trans
  · exact .inr hc

theorem of_cut (h : Cut a b) : Trims a b :=
  fun k _ => h.get k

-- A complaint about one member that an absent member does not draw.
theorem complaint (t : Trims a b) (P : JsValue → Bool) (hk : k ∉ tlsFields) (hu : P .undefined = false)
    (h : P (a.get k) = false) : P (b.get k) = false := by
  obtain hb | hb := t k hk
  · rw [hb, h]
  · rw [hb, hu]

theorem still (t : Trims a b) (P : JsValue → Bool) (hk : k ∉ tlsFields) (hu : P .undefined = false)
    (h : P (b.get k) = true) : P (a.get k) = true := by
  by_contra hn
  have hn := t.complaint P hk hu <| by simpa using hn
  rw [h] at hn
  contradiction

end Trims

theorem serializeGateway_trims : Trims a (serializeGateway engine topology a) :=
  .of_cut serializeGateway_cut

section Pieces

theorem validateTimes_trims (t : Trims a b) (h : validateTimes a topology = []) :
    validateTimes b topology = [] := by
  simp only [validateTimes, List.append_eq_nil_iff, issueIf_eq_nil] at h ⊢
  obtain ⟨⟨hs, hk⟩, ht⟩ := h
  let wrong (v : JsValue) := !isUndefined v && !isNonNegativeInteger v
  let wrongUpTo (max : Nat) (v : JsValue) :=
    !isUndefined v && (!isNonNegativeInteger v || exceeds v max)
  refine ⟨⟨t.complaint wrong (by decide) rfl hs, t.complaint wrong (by decide) rfl hk⟩, ?_⟩
  split at ht
  case isTrue hp => rw [if_pos hp]
  case isFalse hp =>
    rw [if_neg hp]
    simp only [List.append_eq_nil_iff, issueIf_eq_nil] at ht ⊢
    obtain ⟨⟨⟨h₁, h₂⟩, h₃⟩, h₄⟩ := ht
    exact ⟨⟨⟨t.complaint wrong (by decide) rfl h₁, t.complaint (wrongUpTo 3600) (by decide) rfl h₂⟩,
      t.complaint (wrongUpTo 100) (by decide) rfl h₃⟩, t.complaint wrong (by decide) rfl h₄⟩

theorem validateEngine_trims (t : Trims a b) (h : validateEngine a exactMode engine = []) :
    validateEngine b exactMode engine = [] := by
  let otherThan (n : JsNumber) (v : JsValue) := !isUndefined v && !oneOf [0, n] v
  simp only [validateEngine, List.append_eq_nil_iff] at h ⊢
  obtain ⟨ht, hl⟩ := h
  constructor
  case left =>
    split at ht
    case isTrue hn => rw [if_pos hn]
    case isFalse hn =>
      rw [if_neg hn]
      simp only [issueIf_eq_nil] at ht ⊢
      exact t.complaint (otherThan 5557) (by decide) rfl ht
  case right =>
    split at hl
    case isTrue hn => rw [if_pos hn]
    case isFalse hn =>
      rw [if_neg hn]
      simp only [List.append_eq_nil_iff, issueIf_eq_nil] at hl ⊢
      obtain ⟨⟨⟨hx, hh⟩, hz⟩, hb⟩ := hl
      exact ⟨⟨⟨hx, t.complaint JsValue.truthy (by decide) rfl hh⟩,
        t.complaint (otherThan 5557) (by decide) rfl hz⟩, t.complaint (otherThan 16) (by decide) rfl hb⟩

theorem validateProfile_trims (t : Trims a b) (h : validateProfile a exactMode = []) :
    validateProfile b exactMode = [] := by
  simp only [validateProfile, List.append_eq_nil_iff, issueIf_eq_nil] at h ⊢
  obtain ⟨hp, hm⟩ := h
  refine ⟨t.complaint (fun v => hasValue v && exactMode.strictEq (.number 0)) (by decide) rfl hp, ?_⟩
  obtain hb | hb := t "kvExactApiMode" (by decide)
  · rw [hb, hm]
  · rw [hb]
    rfl

theorem validateChwbl_trims (t : Trims a b) (hs : b.get "sel" = a.get "sel")
    (h : validateChwbl a = []) : validateChwbl b = [] := by
  simp only [validateChwbl, List.append_eq_nil_iff, issueIf_eq_nil, hs] at h ⊢
  generalize isChwblSelector (a.get "sel") = selector at h ⊢
  obtain ⟨⟨⟨h₁, h₂⟩, h₃⟩, h₄⟩ := h
  refine ⟨⟨⟨?_, ?_⟩, ?_⟩, ?_⟩
  · simp only [Bool.and_or_distrib_right, Bool.or_eq_false_iff] at h₁ ⊢
    let asked (v : JsValue) := hasValue v && !selector
    exact ⟨t.complaint asked (by decide) rfl h₁.left, t.complaint asked (by decide) rfl h₁.right⟩
  · exact t.complaint (fun v => hasValue v && !oneOf [1, 2, 3] (.number v.toNumber)) (by decide) rfl h₂
  · exact t.complaint (fun v => hasValue v &&
      (!isNonNegativeInteger v || exceeds (.number v.toNumber) 255)) (by decide) rfl h₃
  · split at h₄
    case isTrue hn => rw [if_pos hn]
    case isFalse hn =>
      rw [if_neg hn]
      simp only [List.append_eq_nil_iff, issueIf_eq_nil] at h₄ ⊢
      obtain ⟨⟨hm, hr⟩, hc⟩ := h₄
      refine ⟨⟨?_, ?_⟩, ?_⟩
      · exact t.complaint (fun v => hasValue v && (!isIntegerFrom 100 v || exceeds v 300)) (by decide) rfl hm
      · exact t.complaint (fun v => hasValue v && (!isPositiveInteger v || exceeds v 1024)) (by decide) rfl hr
      · let salted (salt flags : JsValue) := salt.strictEq (.bool true) && hasValue flags &&
          flags.toNumber ≠ 0 && flags.toNumber.whole % 16 < 8
        have hc : salted (a.get "chwbl_enable_cache_salt") (b.get "chwbl_prefix_hash_flags") = false :=
          t.complaint (salted _) (by decide) (by simp [salted, hasValue, JsValue.isNil]) hc
        exact t.complaint (salted · _) (by decide) rfl hc

theorem isIncompatibleHash_trims (t : Trims a b)
    (h : isIncompatibleHash engine (a.get "kvHashAlgo") = some false) :
    isIncompatibleHash engine (b.get "kvHashAlgo") = some false := by
  obtain hb | hb := t "kvHashAlgo" (by decide)
  · rw [hb, h]
  · rw [hb]
    rfl

-- Where the rule is routed by exact events the block size is still there.
theorem validateKv_trims (t : Trims a b)
    (hx : exactMode.strictEq (.number 0) = false → b.get "kvBlockSize" = a.get "kvBlockSize")
    (h : validateKv a exactMode engine topology = some []) :
    validateKv b exactMode engine topology = some [] := by
  simp only [validateKv, Option.bind_eq_bind, Option.bind_eq_some_iff, Option.pure_def,
    Option.some.injEq, List.append_eq_nil_iff, issueIf_eq_nil] at h ⊢
  obtain ⟨_, hh, ⟨⟨⟨hb, hw⟩, rfl⟩, hp⟩, hs⟩ := h
  refine ⟨false, isIncompatibleHash_trims t hh, ⟨⟨⟨?_, ?_⟩, rfl⟩, ?_⟩, ?_⟩
  · cases he : exactMode.strictEq (.number 0)
    case true  => rfl
    case false => simpa [hx he, he] using hb
  · exact t.complaint (fun v => !exactMode.strictEq (.number 0) && !isUndefined v &&
      !isNonNegativeInteger v) (by decide) (by simp [isUndefined]) hw
  · exact t.complaint (fun v => !isUndefined v && !isPortOrZero v) (by decide) rfl hp
  · exact t.complaint (fun v => !(v.orElse (.number 0)).strictEq (.number 0) &&
      !(engine.strictEq (.string "sglang") && topology = .pd)) (by decide) rfl hs

-- Where SGLang fans out over the ranks, port and rank count are still there.
theorem validateZmq_trims (t : Trims a b)
    (hx : engine.strictEq (.string "sglang") = true → usesExactEventRouting exactMode topology = true →
      b.get "kvZmqPort" = a.get "kvZmqPort" ∧
      (b.get "kvDpRankCount").orElse (.number 1) = (a.get "kvDpRankCount").orElse (.number 1))
    (h : validateZmq a exactMode engine topology = []) : validateZmq b exactMode engine topology = [] := by
  simp only [validateZmq, List.append_eq_nil_iff, issueIf_eq_nil] at h ⊢
  obtain ⟨hz, hr⟩ := h
  constructor
  case left =>
    exact t.complaint (fun v => usesExactEventRouting exactMode topology &&
      (engine.strictEq (.string "vllm") || engine.strictEq (.string "sglang")) && !isUndefined v &&
      !isPort v) (by decide) (by simp [isUndefined]) hz
  case right =>
    by_cases hf : (!(engine.strictEq (.string "sglang") &&
        usesExactEventRouting exactMode topology)) = true
    · rw [if_pos hf]
    · simp only [Bool.not_eq_true', Bool.not_eq_false, Bool.and_eq_true] at hf
      obtain ⟨hport, hrank⟩ := hx hf.1 hf.2
      rw [hport, hrank, hr]

theorem serializeEndpoint_role {e : JsObject} :
    (serializeEndpoint engine .pd e).get "ep_role" = e.get "ep_role" :=
  get_deleteIf_of fun h => absurd h (by decide)

theorem validateEndpointTopology_serialized (h : validateEndpointTopology engine topology es = []) :
    validateEndpointTopology engine topology (es.map <| serializeEndpoint engine topology) = [] := by
  cases topology
  case pd =>
    simp only [validateEndpointTopology, if_true, List.append_eq_nil_iff, issueIf_eq_nil, List.any_map,
      Function.comp_def, serializeEndpoint_role] at h ⊢
    obtain ⟨hr, hp⟩ := h
    refine ⟨hr, ?_⟩
    cases he : engine.strictEq (.string "vllm")
    case false => rfl
    case true  =>
      simp only [serializeEndpoint, he, deleteIf] at hp ⊢
      exact hp
  case plain | singleRole =>
    simp [validateEndpointTopology, serializeEndpoint, stripEndpointAI, isUndefined]

theorem isFcBlank_of_positive (h : isPositiveInteger v = true) : isFcBlank v = false := by
  cases v <;> simp_all [isPositiveInteger, isIntegerFrom, isFcBlank, JsValue.isNil, JsValue.strictEq]

-- A queue wait that counts is still there.
theorem validateAdmissionFields_trims (t : Trims a b) (hs : isAIService b = true → isAIService a = true)
    (hw : isAIService b = true → isFcBlank (a.get "fc_max_queue_wait_ms") = false →
      b.get "fc_max_queue_wait_ms" = a.get "fc_max_queue_wait_ms")
    (h : validateAdmissionFields a topology = []) : validateAdmissionFields b topology = [] := by
  simp only [validateAdmissionFields] at h ⊢
  by_cases hb : isAIService b = true
  case neg => rw [if_pos (by simpa using hb)]
  case pos =>
    rw [if_neg (by simp [hs hb])] at h
    rw [if_neg (by simp [hb])]
    simp only [List.append_eq_nil_iff, issueIf_eq_nil, List.flatMap_eq_nil_iff] at h ⊢
    obtain ⟨⟨⟨⟨h₁, h₂⟩, h₃⟩, hn⟩, hq⟩ := h
    let outside (words : List String) (v : JsValue) :=
      !isFcBlank v && !words.any fun word => v.strictEq (.string word)
    refine ⟨⟨⟨⟨?_, ?_⟩, ?_⟩, ?_⟩, ?_⟩
    · exact t.complaint (outside ["off", "observe", "enforce", "inherit"]) (by decide) rfl h₁
    · exact t.complaint (outside ["on", "off", "inherit"]) (by decide) rfl h₂
    · exact t.complaint (outside ["on", "off", "inherit"]) (by decide) rfl h₃
    · rintro ⟨field, max⟩ hm
      have hf : field ∉ tlsFields :=
        (show ∀ p ∈ fcNumericMax, p.1 ∉ tlsFields by decide) (field, max) hm
      have hn := hn (field, max) hm
      split at hn
      case isTrue hp => exact if_pos hp
      case isFalse hp =>
        refine (if_neg hp).trans ?_
        simp only [issueIf_eq_nil] at hn ⊢
        exact t.complaint (fun v => !isFcBlank v && (!isNonNegativeInteger v || exceeds v max)) hf rfl hn
    · obtain hd | hd := t "fc_max_queue_depth" (by decide)
      · rw [hd]
        simp only [Bool.and_eq_false_imp, Bool.not_eq_false'] at hq ⊢
        intro hp
        rw [hw hb <| isFcBlank_of_positive <| hq hp, hq hp]
      · rw [hd]
        rfl

end Pieces

section Kept

-- The admission pool is judged on the members that are sent.
theorem serializeGateway_queueWait (hs : isAIService (serializeGateway engine topology a) = true)
    (hb : isFcBlank (a.get "fc_max_queue_wait_ms") = false) :
    (serializeGateway engine topology a).get "fc_max_queue_wait_ms" = a.get "fc_max_queue_wait_ms" := by
  rw [serializeGateway] at hs ⊢
  have hf := @serializeStages_frame a "fc_max_queue_wait_ms" engine topology (by decide) (by decide)
    (by decide) (by decide)
  rw [serializeStrictProfileFields_frame (by decide)]
  generalize (serializeEngine engine topology <| serializeTopology engine topology <| serializeHash <|
      serializeCredentials a) = c at hs hf ⊢
  have hc : isAIService c = true := by
    rw [← hs]
    refine (isAIService_congr ?_ ?_ ?_ ?_).symm <;>
      rw [serializeStrictProfileFields_frame (by decide), serializeAdmissionFields_get (by decide)]
  unfold serializeAdmissionFields
  rw [if_neg (by simp [hc]), get_deleteIf_of fun h => absurd h (by decide), JsObject.get_delete, if_neg, hf]
  simp [hf, hb]

theorem isAIService_of_trims (t : Trims a b) (hm : b.get "mode" = a.get "mode")
    (h : isAIService b = true) : isAIService a = true := by
  simp only [isAIService, hm] at h ⊢
  split at h
  case isTrue => contradiction
  case isFalse hn =>
    rw [if_neg hn]
    simp only [Bool.or_eq_true] at h ⊢
    exact h.imp (.imp (t.still JsValue.truthy (by decide) rfl) (t.still JsValue.truthy (by decide) rfl))
      (t.still (fun v => v.truthy && !v.strictEq (.string "disabled")) (by decide) rfl)

end Kept

section Fullproxy

-- Every part of the validation of a fullproxy rule found nothing.
structure Passes (args : JsObject) (endpoints : List JsObject) (engine exactMode : JsValue)
    (topology : AITopology) : Prop where
  exact     : validateExactMode exactMode engine topology = []
  chwbl     : validateChwbl args = []
  times     : validateTimes args topology = []
  kv        : validateKv args exactMode engine topology = some []
  zmq       : validateZmq args exactMode engine topology = []
  events    : validateEngine args exactMode engine = []
  profile   : validateProfile args exactMode = []
  admission : validateAdmissionFields args topology = []
  roles     : validateEndpointTopology engine topology endpoints = []

theorem passes_iff {configuration : ServiceConfiguration}
    (hm : (configuration.serviceArguments.get "mode").strictEq (.number 4) = true) :
    validateAIConfiguration configuration = some [] ↔
      Passes configuration.serviceArguments (configuration.endpoints.getD [])
        (engineOf configuration.serviceArguments) (exactModeOf configuration.serviceArguments)
        (resolveAITopology configuration.serviceArguments) := by
  simp only [validateAIConfiguration, hm]
  rw [if_neg (by simp)]
  simp only [Option.bind_eq_bind, Option.bind_eq_some_iff, Option.pure_def, Option.some.injEq,
    List.append_eq_nil_iff]
  constructor
  case mp =>
    rintro ⟨_, hk, ⟨⟨⟨⟨⟨⟨⟨hx, hc⟩, ht⟩, rfl⟩, hz⟩, he⟩, hp⟩, ha⟩, hep⟩
    exact ⟨hx, hc, ht, hk, hz, he, hp, ha, hep⟩
  case mpr =>
    intro h
    exact ⟨_, h.kv, ⟨⟨⟨⟨⟨⟨⟨h.exact, h.chwbl⟩, h.times⟩, rfl⟩, h.zmq⟩, h.events⟩, h.profile⟩,
      h.admission⟩, h.roles⟩

-- What is needed of the members that the stages start from.
structure StartsFrom (args a : JsObject) : Prop where
  others : ∀ k ∉ tlsFields, k ∉ readOnlyServiceArguments → a.get k = args.get k
  trims  : Trims args a

variable (hp : Passes args es (engineOf args) (exactModeOf args) (resolveAITopology args))
variable (hv : ValidRule args es) (hs : StartsFrom args a)

include hs in
theorem StartsFrom.sameConditions : SameConditions a args where
  apiKeyAuth := hs.others "api_key_auth" (by decide) (by decide)
  sel        := hs.others "sel" (by decide) (by decide)
  exactMode  := hs.others "kvExactMode" (by decide) (by decide)
  profile    := hs.others "kvModelProfile" (by decide) (by decide)

def sent (args a : JsObject) : JsObject :=
  serializeGateway (engineOf args) (resolveAITopology args) a

include hs in
theorem sent_trims : Trims args (sent args a) :=
  hs.trims.trans serializeGateway_trims

include hv hs in
-- A member with a value that nothing in the rule makes superfluous.
theorem sent_get (hq : Present (args.get k)) (hn : isZero (args.get k) = false) (ho : ¬LeftOut args k)
    (h₁ : k ∉ tlsFields) (h₂ : k ∉ readOnlyServiceArguments) (h₃ : k ∉ admissionFields) :
    (sent args a).get k = args.get k := by
  have hk := hs.others k h₁ h₂
  exact (serializeGateway_get hv hs.sameConditions (hk ▸ hq) hq hn ho h₃).trans hk

include hv hs in
theorem sent_kvExactMode (hu : usesExact args = true) :
    (sent args a).get "kvExactMode" = args.get "kvExactMode" := by
  refine sent_get hv hs (kvExactMode_present hu) ?_ (fun ho => ?_) (by decide) (by decide) (by decide)
  · obtain h | ⟨_, h⟩ := usesExact_kvExactMode hu
    · rw [singleRole_inv h]
      rfl
    · rw [h]
      rfl
  · simp [leftOut_kvExactMode ho rfl] at hu

include hp hv hs in
theorem sent_exactMode : exactModeOf (sent args a) = exactModeOf args := by
  simp only [exactModeOf]
  cases hu : usesExact args
  case true  => rw [sent_kvExactMode hv hs hu]
  case false =>
    have hz : isZero (args.get "kvExactMode") = true := by
      by_contra h
      simp [hv.exact (by simpa using h)] at hu
    have hx := hp.exact
    simp only [validateExactMode, List.append_eq_nil_iff, issueIf_eq_nil, Bool.not_eq_false'] at hx
    have h₀ : (args.get "kvExactMode").orElse (.number 0) = .number 0 := by
      obtain h | h | h := exactMode_cases hx.left.left.left.left
      · exact h
      · rw [h] at hz
        contradiction
      · rw [h] at hz
        contradiction
    obtain h | h := sent_trims hs "kvExactMode" (by decide)
    · rw [h]
    · rw [h, h₀]
      rfl

include hv hs in
theorem sent_topology : resolveAITopology (sent args a) = resolveAITopology args := by
  have hfalsy (h : (args.get "pd_disagg_mode").truthy = false) :
      ((sent args a).get "pd_disagg_mode").truthy = false :=
    (sent_trims hs).complaint JsValue.truthy (by decide) rfl h
  cases ht : resolveAITopology args
  case pd =>
    have hd : (sent args a).get "pd_disagg_mode" = args.get "pd_disagg_mode" := by
      rw [sent, ht, serializeGateway_disagg, hs.others _ (by decide) (by decide)]
    simp only [resolveAITopology] at ht ⊢
    rw [hd]
    split at ht
    case isTrue h  => rw [if_pos h]
    case isFalse h => split at ht <;> cases ht
  case singleRole =>
    have hx := sent_kvExactMode hv hs (by simp [usesExact, usesExactEventRouting, ht])
    simp only [resolveAITopology] at ht ⊢
    split at ht
    case isTrue => cases ht
    case isFalse h =>
      rw [if_neg (by simp [hfalsy (by simpa using h)]), hx]
      exact ht
  case plain =>
    simp only [resolveAITopology] at ht ⊢
    split at ht
    case isTrue => cases ht
    case isFalse h =>
      rw [if_neg (by simp [hfalsy (by simpa using h)])]
      split at ht
      case isTrue => cases ht
      case isFalse hx =>
        rw [if_neg]
        simpa using (sent_trims hs).complaint (·.strictEq (.number 3)) (by decide) rfl (by simpa using hx)

include hs in
theorem sent_engine : engineOf (sent args a) = engineOf args := by
  rw [engineOf, sent, serializeGateway_engine, hs.others _ (by decide) (by decide), engineOf]

theorem present_of_positive (h : isPositiveInteger v = true) : Present v ∧ isZero v = false := by
  cases v <;> simp only [isPositiveInteger, isIntegerFrom, Bool.false_eq_true] at h
  case number n =>
    have hz : isZero (.number n) = false := by
      by_contra hz
      simp only [isZero, Bool.not_eq_false, JsNumber.strictEq_zero_iff] at hz
      subst hz
      revert h
      decide
    refine ⟨present_of_nonzero hz ?_, hz⟩
    rintro ⟨⟩
    simp [JsNumber.isInteger] at h

theorem present_of_port (h : isPort v = true) : Present v ∧ isZero v = false :=
  present_of_positive (Bool.and_eq_true_iff.mp h).left

theorem usesExact_eq :
    usesExactEventRouting (exactModeOf args) (resolveAITopology args) = usesExact args := by
  simp only [usesExact, usesExactEventRouting, exactModeOf, strictEq_orElse (show (1 : JsNumber) ≠ 0 by decide)]

include hp hv in
theorem usesExact_of_exactMode (h : (exactModeOf args).strictEq (.number 0) = false) :
    usesExact args = true := by
  have hx := hp.exact
  simp only [validateExactMode, List.append_eq_nil_iff, issueIf_eq_nil, Bool.not_eq_false'] at hx
  obtain hc | hc | hc := exactMode_cases hx.left.left.left.left
  · rw [exactModeOf, hc] at h
    contradiction
  · exact hv.exact <| by rw [hc]; rfl
  · exact hv.exact <| by rw [hc]; rfl

-- Where the rule is routed by exact events, its engine alone leaves members out.
theorem leftOut_kv (h : LeftOut args k) (hk : k ∈ kvFields) (hu : usesExact args = true) :
    (k = "kvDpRankCount" ∧ (engineOf args).strictEq (.string "sglang") = false) ∨
      (k = "kvZmqPort" ∧ (engineOf args).strictEq (.string "trtllm") = true) := by
  have hr : ∀ k ∈ chwblTuningFields ++ pdTuningFields, k ∉ kvFields := by decide
  cases h
  case kv hn _       => simp [hu] at hn
  case ring _ hm     => exact absurd hk <| hr k <| List.mem_append_left _ hm
  case tuning _ hm   => exact absurd hk <| hr k <| List.mem_append_right _ hm
  case rank h        => exact .inl ⟨rfl, h⟩
  case zmq h         => exact .inr ⟨rfl, h⟩
  case jwt | apiMode => exact absurd hk (by decide)

include hp hv hs in
theorem sent_blockSize (h : (exactModeOf args).strictEq (.number 0) = false) :
    (sent args a).get "kvBlockSize" = args.get "kvBlockSize" := by
  have hu := usesExact_of_exactMode hp hv h
  have hk := hp.kv
  simp only [validateKv, Option.bind_eq_bind, Option.bind_eq_some_iff, Option.pure_def,
    Option.some.injEq, List.append_eq_nil_iff, issueIf_eq_nil] at hk
  obtain ⟨_, _, ⟨⟨⟨hb, _⟩, _⟩, _⟩, _⟩ := hk
  obtain ⟨hq, hz⟩ := present_of_positive (v := args.get "kvBlockSize") <| by simpa [h] using hb
  refine sent_get hv hs hq hz (fun ho => ?_) (by decide) (by decide) (by decide)
  obtain ⟨he, _⟩ | ⟨he, _⟩ := leftOut_kv ho (by decide) hu <;> contradiction

include hp hv hs in
theorem sent_ranks (he : (engineOf args).strictEq (.string "sglang") = true)
    (hx : usesExactEventRouting (exactModeOf args) (resolveAITopology args) = true) :
    (sent args a).get "kvZmqPort" = args.get "kvZmqPort" ∧
      ((sent args a).get "kvDpRankCount").orElse (.number 1) =
        (args.get "kvDpRankCount").orElse (.number 1) := by
  have hu : usesExact args = true := usesExact_eq ▸ hx
  have hz := hp.zmq
  simp only [validateZmq, List.append_eq_nil_iff, issueIf_eq_nil, hx, he, Bool.or_true, Bool.and_self,
    Bool.true_and, Bool.not_true, Bool.false_eq_true, if_false] at hz
  obtain ⟨hport, hrank⟩ := hz
  constructor
  case left =>
    cases hd : isUndefined (args.get "kvZmqPort")
    case true =>
      have hd : args.get "kvZmqPort" = .undefined := by
        cases h : args.get "kvZmqPort" <;> simp_all [isUndefined]
      obtain h | h := sent_trims hs "kvZmqPort" (by decide)
      · exact h
      · rw [h, hd]
    case false =>
      obtain ⟨hq, hz⟩ := present_of_port (v := args.get "kvZmqPort") <| by simpa [hd] using hport
      refine sent_get hv hs hq hz (fun ho => ?_) (by decide) (by decide) (by decide)
      obtain ⟨hn, _⟩ | ⟨_, ht⟩ := leftOut_kv ho (by decide) hu
      · contradiction
      · rw [JsValue.strictEq_inv he] at ht
        contradiction
  case right =>
    cases hn : (args.get "kvDpRankCount").isNil
    case true =>
      obtain h | h := sent_trims hs "kvDpRankCount" (by decide)
      · rw [h]
      · have hone : (args.get "kvDpRankCount").orElse (.number 1) = .number 1 := by
          simp only [JsValue.orElse, hn, if_true]
        rw [h, hone]
        rfl
    case false =>
      have hr : (args.get "kvDpRankCount").orElse (.number 1) = args.get "kvDpRankCount" := by
        simp [JsValue.orElse, hn]
      have hpos : isPositiveInteger (args.get "kvDpRankCount") = true := by
        rw [hr] at hrank
        split at hrank
        case isTrue     => contradiction
        case isFalse hc =>
          simp only [Bool.or_eq_true, not_or, Bool.not_eq_true', Bool.not_eq_false] at hc
          exact hc.left
      obtain ⟨hq, hz⟩ := present_of_positive hpos
      rw [sent_get hv hs hq hz (fun ho => ?_) (by decide) (by decide) (by decide)]
      obtain ⟨_, hn⟩ | ⟨hn, _⟩ := leftOut_kv ho (by decide) hu
      · simp [he] at hn
      · contradiction

include hp hv hs in
theorem passes_sent : Passes (sent args a)
    (es.map <| serializeEndpoint (engineOf args) (resolveAITopology args)) (engineOf <| sent args a)
    (exactModeOf <| sent args a) (resolveAITopology <| sent args a) := by
  have t := sent_trims hs
  have hsel : (sent args a).get "sel" = args.get "sel" := by
    rw [sent, serializeGateway_sel, hs.others _ (by decide) (by decide)]
  have hmode : (sent args a).get "mode" = args.get "mode" := by
    rw [sent, serializeGateway_mode, hs.others _ (by decide) (by decide)]
  rw [sent_engine hs, sent_exactMode hp hv hs, sent_topology hv hs]
  exact {
    exact     := hp.exact
    chwbl     := validateChwbl_trims t hsel hp.chwbl
    times     := validateTimes_trims t hp.times
    kv        := validateKv_trims t (sent_blockSize hp hv hs) hp.kv
    zmq       := validateZmq_trims t (sent_ranks hp hv hs) hp.zmq
    events    := validateEngine_trims t hp.events
    profile   := validateProfile_trims t hp.profile
    admission := by
      refine validateAdmissionFields_trims t (isAIService_of_trims t hmode) (fun hb hw => ?_) hp.admission
      have hk := hs.others "fc_max_queue_wait_ms" (by decide) (by decide)
      exact (serializeGateway_queueWait hb <| hk ▸ hw).trans hk
    roles     := validateEndpointTopology_serialized hp.roles }

end Fullproxy

section Serialized

variable {configuration serialized : ServiceConfiguration}

theorem startsFrom_of_sent (h : BackendTlsSent (args.delete readOnlyServiceArguments) a) :
    StartsFrom args a := by
  have hother (k : String) (hk : k ∉ tlsFields) :
      a.get k = (args.delete readOnlyServiceArguments).get k := by
    simp only [tlsFields, List.mem_cons, not_or] at hk
    exact h.others k hk.right hk.left
  exact {
    others := fun k hk hr => (hother k hk).trans <| readOnly_get hr
    trims  := fun k hk => by
      rw [hother k hk]
      exact Trims.of_cut .delete k hk }

theorem backendTlsApplies_readOnly :
    backendTlsApplies (args.delete readOnlyServiceArguments) = backendTlsApplies args := by
  simp only [backendTlsApplies, readOnly_get (k := "mode") (by decide),
    readOnly_get (k := "security") (by decide)]

-- The validation of backend TLS finds the same in the members that are sent.
theorem validateBackendTls_sent (h : BackendTlsSent (args.delete readOnlyServiceArguments) a) :
    validateBackendTls (serializeGateway engine topology a) = validateBackendTls args := by
  have hs := startsFrom_of_sent h
  have hfields : ∀ k ∈ backendTlsStringFields, k ∈ tlsFields ∧ k ∉ readOnlyServiceArguments := by decide
  apply validateBackendTls_congr
  · rw [serializeGateway_mode, hs.others _ (by decide) (by decide)]
  · rw [serializeGateway_security, hs.others _ (by decide) (by decide)]
  · intro happ k hk
    rw [serializeGateway_tls (hfields k hk).left,
      h.text_eq (backendTlsApplies_readOnly.trans happ) hk, readOnly_get (hfields k hk).right]
  · intro happ
    have hv : verifies (serializeGateway engine topology a) = verifies a := by
      rw [verifies, serializeGateway_tls (by decide), verifies]
    rw [hv, h.verify, backendTlsApplies_readOnly, happ, Bool.true_and, verifies,
      readOnly_get (by decide), verifies]

-- Off fullproxy none of the members that the validation looks for is left.
theorem isActive_undefined (h : args.get k = .undefined) : isActive args k = false := by
  simp [isActive, h, isUndefined]

theorem validate_plain (hm : (args.get "mode").strictEq (.number 4) = false)
    (ha : ∀ k ∈ aiOnlyFields, args.get k = .undefined) (hc : configuration.serviceArguments = args) :
    validateAIConfiguration configuration = some [] ∧ validateBackendTls args = some [] := by
  have hactive : aiOnlyFields.any (isActive args) = false := by
    rw [List.any_eq_false]
    intro k hk
    simp [isActive_undefined <| ha k hk]
  constructor
  · simp [validateAIConfiguration, hc, hm, hactive]
  · simp [validateBackendTls, backendTlsApplies, hm]

theorem exists_serialized (h : Typed configuration.serviceArguments)
    (he : configuration.endpoints.isSome) :
    ∃ serialized, serializeAIConfiguration configuration = some serialized := by
  obtain ⟨a, ha, _⟩ := serializeBackendTls_spec <| typed_readOnly h
  obtain ⟨es, hes⟩ := Option.isSome_iff_exists.mp he
  simp only [serializeAIConfiguration, ha, hes, Option.bind_eq_bind, Option.bind_some]
  split <;> exact ⟨_, rfl⟩

-- The two shapes that the gateway leaves behind.
theorem serialized_plain (hm : (a.get "mode").strictEq (.number 4) = false)
    (ha : serializeBackendTls (configuration.serviceArguments.delete readOnlyServiceArguments) = some a)
    (h : serializeAIConfiguration configuration = some serialized) :
    serialized.serviceArguments = a.delete (aiOnlyFields ++ ["cb_enable"] ++ chwblTuningFields) := by
  simp only [serializeAIConfiguration, Option.bind_eq_bind, ha, Option.bind_some, hm, Bool.not_false,
    if_true, Option.bind_eq_some_iff] at h
  obtain ⟨es, _, h⟩ := h
  exact (congrArg ServiceConfiguration.serviceArguments <| Option.some.inj h).symm

theorem serialized_sent (hm : (a.get "mode").strictEq (.number 4) = true)
    (ha : serializeBackendTls (configuration.serviceArguments.delete readOnlyServiceArguments) = some a)
    (h : serializeAIConfiguration configuration = some serialized) :
    serialized.serviceArguments = sent configuration.serviceArguments a ∧
      ∃ es, configuration.endpoints = some es ∧ serialized.endpoints = some (es.map <|
        serializeEndpoint (engineOf configuration.serviceArguments)
          (resolveAITopology configuration.serviceArguments)) := by
  simp only [serializeAIConfiguration, Option.bind_eq_bind, ha, Option.bind_some, hm, Bool.not_true,
    Bool.false_eq_true, if_false, Option.bind_eq_some_iff] at h
  obtain ⟨es, hes, h⟩ := h
  have h := Option.some.inj h
  exact ⟨(congrArg ServiceConfiguration.serviceArguments h).symm, es, hes,
    (congrArg ServiceConfiguration.endpoints h).symm⟩

-- What an accepted rule is sent as is accepted, and it is sent if its members are of their types.
theorem accepted_serialized (hv : validateAIConfiguration configuration = some [])
    (ht : validateBackendTls configuration.serviceArguments = some []) :
    (Typed configuration.serviceArguments → configuration.endpoints.isSome →
      ∃ serialized, serializeAIConfiguration configuration = some serialized) ∧
    ∀ serialized, serializeAIConfiguration configuration = some serialized →
      validateAIConfiguration serialized = some [] ∧
      validateBackendTls serialized.serviceArguments = some [] := by
  refine ⟨exists_serialized, fun serialized h => ?_⟩
  have h' := h
  simp only [serializeAIConfiguration, Option.bind_eq_bind, Option.bind_eq_some_iff] at h'
  obtain ⟨a, ha, -⟩ := h'
  have hsent := serializeBackendTls_inv ha
  have hs := startsFrom_of_sent hsent
  have hmode := hs.others "mode" (by decide) (by decide)
  cases hm : (a.get "mode").strictEq (.number 4)
  case false =>
    rw [serialized_plain hm ha h]
    refine validate_plain ?_ ?_ (serialized_plain hm ha h)
    · rw [JsObject.get_delete, if_neg (by decide), hm]
    · intro k hk
      rw [JsObject.get_delete, if_pos]
      exact List.mem_append_left _ <| List.mem_append_left _ hk
  case true =>
    obtain ⟨hargs, es, hes, hends⟩ := serialized_sent hm ha h
    rw [hmode] at hm
    have hp := (passes_iff hm).mp hv
    have hrule := validRule (JsValue.strictEq_inv hm) hv
    rw [hes, Option.getD_some] at hp hrule
    have hb := passes_sent hp hrule hs
    have hk : (sent configuration.serviceArguments a).get "mode" = configuration.serviceArguments.get "mode" := by
      rw [sent, serializeGateway_mode, hmode]
    constructor
    · rw [passes_iff, hargs, hends, Option.getD_some]
      · exact hb
      · rw [hargs, hk, hm]
    · rw [hargs]
      exact (validateBackendTls_sent hsent).trans ht

-- Ranks of SGLang behind one virtual address, with a blank member and a padded certificate.
def sglangRule : ServiceConfiguration where
  serviceArguments := {
    entries := [
      ("mode", .number 4),
      ("security", .number 2),
      ("kvEngineType", .string "sglang"),
      ("pd_disagg_mode", .bool true),
      ("kvExactMode", .number 1),
      ("kvBlockSize", .number 64),
      ("kvZmqPort", .number 5557),
      ("kvDpRankCount", .number 2),
      ("pdBootstrapPort", .number 8998),
      ("fc_max_queue_depth", .number 8),
      ("fc_max_queue_wait_ms", .number 500),
      ("fc_mode", .string ""),
      ("backend_client_cert_id", .string " client "),
      ("half_close_effective", .bool true)
    ]
    nodup := by decide
  }
  endpoints      := some [
    ⟨[("endpointIP", .string "10.1.0.1"), ("ep_role", .number 1)], by simp⟩,
    ⟨[("endpointIP", .string "10.1.0.2"), ("ep_role", .number 2), ("nixl_port", .number 7001)], by simp⟩
  ]
  secondaryIPs   := none
  allowedSources := some []

theorem accepted_serialized_sglangRule : ∃ serialized,
    serializeAIConfiguration sglangRule = some serialized ∧
      validateAIConfiguration serialized = some [] ∧
      validateBackendTls serialized.serviceArguments = some [] := by
  have ht : Typed sglangRule.serviceArguments := {
    texts   := by
      simp only [backendTlsStringFields, List.forall_mem_cons]
      exact ⟨.inl rfl, .inr ⟨_, rfl⟩, .inl rfl, by simp⟩
    backend := .inl rfl }
  obtain ⟨hsome, hvalid⟩ := @accepted_serialized sglangRule (by decide +kernel) (by decide +kernel)
  obtain ⟨serialized, h⟩ := hsome ht rfl
  exact ⟨serialized, h, hvalid serialized h⟩

end Serialized

end AIGateway
