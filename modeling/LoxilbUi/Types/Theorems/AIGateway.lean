import LoxilbUi.Hooks.Theorems.LbRuleValues
import LoxilbUi.Types.AIGateway

-- Which members the serializers of a valid fullproxy rule leave alone.

namespace AIGateway

open LoadBalancer BackendTls LBRuleApplied

variable {args a : JsObject} {k : String} {v engine : JsValue} {topology : AITopology}

@[simp]
theorem issueIf_eq_nil {c : Bool} {field message : String} :
    issueIf c field message = [] ↔ c = false := by
  cases c <;> simp [issueIf]

@[simp]
theorem get_deleteIf {c : Bool} {fields : List String} :
    (deleteIf c fields a).get k = if c = true ∧ k ∈ fields then .undefined else a.get k := by
  cases c <;> simp [deleteIf]

theorem get_deleteIf_of {c : Bool} {fields : List String} (h : k ∈ fields → c = false) :
    (deleteIf c fields a).get k = a.get k := by
  rw [get_deleteIf, if_neg]
  rintro ⟨hc, hk⟩
  simp [h hk] at hc

section Values

theorem hasValue_of_nonzero (h : isZero v = false) : hasValue v = true := by
  cases v <;> simp_all [isZero, hasValue, JsValue.isNil, JsValue.strictEq]

theorem truthy_of_nonzero (h : isZero v = false) (hn : v ≠ .number .nan) : v.truthy = true := by
  cases v
  case number n => cases n <;> simp_all [isZero, JsValue.truthy, JsNumber.strictEq]
  all_goals simp_all [isZero, JsValue.truthy]

theorem strictEq_orElse {n m : JsNumber} (h : n ≠ m) :
    (v.orElse (.number m)).strictEq (.number n) = v.strictEq (.number n) := by
  cases v <;> simp_all [JsValue.orElse, JsValue.isNil, JsValue.strictEq]
  all_goals cases m <;> simp_all [JsNumber.strictEq, eq_comm]

end Values

section Valid

def engineOf (args : JsObject) : JsValue :=
  resolveAIEngine <| args.get "kvEngineType"

def usesExact (args : JsObject) : Bool :=
  usesExactEventRouting (args.get "kvExactMode") (resolveAITopology args)

-- What the serializers need of the validation.
structure ValidRule (args : JsObject) (endpoints : List JsObject) : Prop where
  exact     : isZero (args.get "kvExactMode") = false → usesExact args = true
  engine    : usesExact args = true → (engineOf args).strictEq (.string "llamacpp") = false
  bootstrap : isZero (args.get "pdBootstrapPort") = false →
    (engineOf args).strictEq (.string "sglang") = true ∧ resolveAITopology args = .pd
  profile   : hasValue (args.get "kvModelProfile") = true → isZero (args.get "kvExactMode") = false
  endpoints : resolveAITopology args ≠ .pd → ∀ e ∈ endpoints, ∀ field ∈ ["ep_role", "nixl_port"],
    isZero (e.get field) = true

theorem nonzero_orElse {n : JsNumber} (h : isZero v = false) : v.orElse (.number n) = v := by
  cases v <;> simp_all [isZero, JsValue.orElse, JsValue.isNil]

theorem nonzero_strictEq (h : isZero v = false) : v.strictEq (.number 0) = false := by
  cases v <;> simp_all [isZero, JsValue.strictEq]

theorem exactMode_cases (h : oneOf [0, 1, 3] (v.orElse (.number 0)) = true) :
    v.orElse (.number 0) = .number 0 ∨ v = .number 1 ∨ v = .number 3 := by
  simp only [oneOf, List.any_cons, List.any_nil, Bool.or_false, Bool.or_eq_true] at h
  obtain h | h | h := h
  · exact .inl <| JsValue.strictEq_inv h
  · rw [strictEq_orElse (by decide)] at h
    exact .inr <| .inl <| JsValue.strictEq_inv h
  · rw [strictEq_orElse (by decide)] at h
    exact .inr <| .inr <| JsValue.strictEq_inv h

theorem singleRole_inv (h : resolveAITopology args = .singleRole) :
    args.get "kvExactMode" = .number 3 := by
  simp only [resolveAITopology] at h
  split at h
  case isTrue => contradiction
  case isFalse =>
    split at h
    case isTrue he => exact JsValue.strictEq_inv he
    case isFalse   => contradiction

theorem bootstrap_inv {exactMode : JsValue} (h : validateKv args exactMode engine topology = some [])
    (hn : isZero (args.get "pdBootstrapPort") = false) :
    engine.strictEq (.string "sglang") = true ∧ topology = .pd := by
  simp only [validateKv, Option.bind_eq_bind, Option.bind_eq_some_iff] at h
  obtain ⟨_, _, h⟩ := h
  simp only [Option.pure_def, Option.some.injEq, List.append_eq_nil_iff, issueIf_eq_nil] at h
  have hb := h.right
  rw [nonzero_orElse hn, nonzero_strictEq hn] at hb
  simpa using hb

theorem endpoints_inv {endpoints : List JsObject} (ht : topology ≠ .pd)
    (h : validateEndpointTopology engine topology endpoints = []) :
    ∀ e ∈ endpoints, ∀ field ∈ ["ep_role", "nixl_port"], isZero (e.get field) = true := by
  simp only [validateEndpointTopology, if_neg ht, List.append_eq_nil_iff, issueIf_eq_nil,
    List.any_eq_false, Bool.and_eq_true, Bool.not_eq_true', not_and, Bool.not_eq_false] at h
  have hz (v : JsValue) (h : isUndefined v = false → v.strictEq (.number 0) = true) :
      isZero v = true := by
    cases hu : isUndefined v
    case true  => cases v <;> simp_all [isUndefined, isZero]
    case false =>
      rw [JsValue.strictEq_inv (h hu)]
      rfl
  simp only [List.mem_cons, List.not_mem_nil, or_false, forall_eq_or_imp, forall_eq]
  exact fun e he => ⟨hz _ (h.left e he), hz _ (h.right e he)⟩

-- The parts of a validation that found nothing.
theorem validate_inv {configuration : ServiceConfiguration}
    (hm : configuration.serviceArguments.get "mode" = .number 4)
    (h : validateAIConfiguration configuration = some []) :
    let args := configuration.serviceArguments
    let exactMode := (args.get "kvExactMode").orElse (.number 0)
    validateExactMode exactMode (engineOf args) (resolveAITopology args) = [] ∧
    validateKv args exactMode (engineOf args) (resolveAITopology args) = some [] ∧
    validateEngine args exactMode (engineOf args) = [] ∧ validateProfile args exactMode = [] ∧
    validateEndpointTopology (engineOf args) (resolveAITopology args)
      (configuration.endpoints.getD []) = [] := by
  simp only [validateAIConfiguration, hm] at h
  rw [if_neg (by decide)] at h
  simp only [Option.bind_eq_bind, Option.bind_eq_some_iff, Option.pure_def, Option.some.injEq,
    List.append_eq_nil_iff] at h
  obtain ⟨_, hk, ⟨⟨⟨⟨⟨⟨⟨hx, _⟩, _⟩, rfl⟩, _⟩, he⟩, hp⟩, _⟩, hep⟩ := h
  exact ⟨hx, hk, he, hp, hep⟩

theorem validRule {configuration : ServiceConfiguration}
    (hm : configuration.serviceArguments.get "mode" = .number 4)
    (h : validateAIConfiguration configuration = some []) :
    ValidRule configuration.serviceArguments (configuration.endpoints.getD []) := by
  obtain ⟨hx, hk, he, hp, hep⟩ := validate_inv hm h
  generalize configuration.serviceArguments = args at *
  simp only [validateExactMode, List.append_eq_nil_iff, issueIf_eq_nil, Bool.not_eq_false',
    Bool.and_eq_false_imp, decide_eq_false_iff_not, not_not, decide_eq_true_eq] at hx
  obtain ⟨⟨⟨⟨hmodes, h₁⟩, h₃⟩, _⟩, hllama⟩ := hx
  simp only [validateEngine, validateProfile, List.append_eq_nil_iff, issueIf_eq_nil] at he hp
  have hcases := exactMode_cases hmodes
  constructor
  case exact =>
    intro hz
    rw [nonzero_orElse hz] at hcases h₁ h₃
    obtain hc | hc | hc := hcases
    · rw [hc] at hz
      contradiction
    · rw [hc] at h₁
      simp [usesExact, usesExactEventRouting, h₁ rfl, hc, JsValue.strictEq, JsNumber.strictEq]
    · rw [hc] at h₃
      simp [usesExact, usesExactEventRouting, h₃ rfl]
  case engine =>
    intro hu
    by_contra hl
    rw [Bool.not_eq_false] at hl
    have he := he.right
    rw [hl] at he
    simp only [Bool.not_true, Bool.false_eq_true, if_false, List.append_eq_nil_iff, issueIf_eq_nil,
      Bool.not_eq_false'] at he
    have h₀ := JsValue.strictEq_inv he.left.left.left
    simp only [usesExact, usesExactEventRouting, Bool.or_eq_true, decide_eq_true_eq,
      Bool.and_eq_true] at hu
    obtain hu | ⟨hu, _⟩ := hu
    · simp [singleRole_inv hu, JsValue.orElse, JsValue.isNil] at h₀
      contradiction
    · simp [hllama hu] at hl
  case bootstrap => exact bootstrap_inv hk
  case profile =>
    intro hv
    have hp := hp.left
    rw [hv, Bool.true_and] at hp
    obtain hc | hc | hc := hcases
    · rw [hc] at hp
      contradiction
    · rw [hc]
      rfl
    · rw [hc]
      rfl
  case endpoints => exact fun ht => endpoints_inv ht hep

end Valid

section Serialize

-- A member with a value, as every check of the serializers asks for one.
structure Present (v : JsValue) : Prop where
  truthy   : v.truthy = true
  hasValue : hasValue v = true

theorem present_of_nonzero (h : isZero v = false) (hn : v ≠ .number .nan) : Present v where
  truthy   := truthy_of_nonzero h hn
  hasValue := hasValue_of_nonzero h

-- What a fullproxy rule is sent without, by its other members.
inductive LeftOut (args : JsObject) : String → Prop
  | jwt (h : requiresJwtProfile (args.get "api_key_auth") = false) : LeftOut args "jwt_auth_profile"
  | ring (k : String) (hk : k ∈ chwblTuningFields) (h : isChwblSelector (args.get "sel") = false) :
    LeftOut args k
  | kv (k : String) (hk : k ∈ kvFields) (h : usesExact args = false) : LeftOut args k
  | tuning (k : String) (hk : k ∈ pdTuningFields) (h : resolveAITopology args ≠ .pd) : LeftOut args k
  | rank (h : (engineOf args).strictEq (.string "sglang") = false) : LeftOut args "kvDpRankCount"
  | zmq (h : (engineOf args).strictEq (.string "trtllm") = true) : LeftOut args "kvZmqPort"
  | apiMode (h : hasValue (args.get "kvModelProfile") = false) : LeftOut args "kvExactApiMode"

theorem truthy_of_requiresJwtProfile (h : requiresJwtProfile v = true) : v.truthy = true := by
  simp only [requiresJwtProfile, jwtAuthPolicies, List.any_cons, List.any_nil, Bool.or_false,
    Bool.or_eq_true] at h
  obtain h | h := h <;> rw [JsValue.strictEq_inv h] <;> rfl

theorem serializeCredentials_get (hp : Present (a.get k))
    (h : k = "jwt_auth_profile" → requiresJwtProfile (a.get "api_key_auth") = true) :
    (serializeCredentials a).get k = a.get k := by
  unfold serializeCredentials
  extract_lets b
  have hb : b.get k = a.get k := get_deleteIf_of fun hk => by
    rw [← List.mem_singleton.mp hk, hp.truthy]
    rfl
  rw [get_deleteIf_of, hb]
  intro hk
  have hk := List.mem_singleton.mp hk
  have ha : b.get "api_key_auth" = a.get "api_key_auth" := get_deleteIf_of fun _ => by
    rw [truthy_of_requiresJwtProfile (h hk)]
    rfl
  rw [ha, h hk, ← hk, hb, hp.truthy]
  rfl

theorem serializeHash_get (hp : Present (a.get k))
    (h : k ∈ chwblTuningFields → isChwblSelector (a.get "sel") = true) :
    (serializeHash a).get k = a.get k := by
  unfold serializeHash
  extract_lets b c d
  have hb : b.get k = a.get k := get_deleteIf_of fun hk => by
    rw [← List.mem_singleton.mp hk, hp.truthy]
    rfl
  have hc : c.get k = a.get k := by
    rw [← hb]
    refine get_deleteIf_of fun hk => ?_
    rw [← List.mem_singleton.mp hk, hb, hp.hasValue]
    rfl
  have hd : d.get k = a.get k := by
    rw [← hc]
    refine get_deleteIf_of fun hk => ?_
    rw [← List.mem_singleton.mp hk, hc, hp.hasValue]
    rfl
  have hsel : d.get "sel" = a.get "sel" := by
    simp [d, c, b]
  split
  case isTrue hs =>
    rw [JsObject.get_delete, if_neg, hd]
    intro hk
    simp [hsel, h hk] at hs
  case isFalse =>
    rw [JsObject.get_delete, if_neg, hd]
    simp [hd, hp.hasValue]

-- The exact mode is left alone wherever the rule is routed by exact events.
theorem usesExact_kvExactMode (h : usesExact args = true) :
    resolveAITopology args = .singleRole ∨
      resolveAITopology args = .pd ∧ args.get "kvExactMode" = .number 1 := by
  simp only [usesExact, usesExactEventRouting, Bool.or_eq_true, decide_eq_true_eq,
    Bool.and_eq_true] at h
  exact h.imp_right fun ⟨hpd, h⟩ => ⟨hpd, JsValue.strictEq_inv h⟩

variable {es : List JsObject}

theorem serializeTopology_get (hv : ValidRule args es) (hp : Present (args.get k))
    (hn : isZero (args.get k) = false) (ho : ¬LeftOut args k)
    (hx : a.get "kvExactMode" = args.get "kvExactMode") :
    (serializeTopology (engineOf args) (resolveAITopology args) a).get k = a.get k := by
  have hkv (hk : k ∈ kvFields) : usesExact args = true := by
    by_contra h
    exact ho <| .kv k hk <| by simpa using h
  have htuning (hk : k ∈ pdTuningFields) : resolveAITopology args = .pd := by
    by_contra h
    exact ho <| .tuning k hk h
  have hpd (hk : k = "pd_disagg_mode") : resolveAITopology args = .pd := by
    simp [resolveAITopology, ← hk, hp.truthy]
  have hboot (hk : k = "pdBootstrapPort") := hv.bootstrap (hk ▸ hn)
  cases ht : resolveAITopology args
  case plain =>
    simp only [serializeTopology, JsObject.get_delete]
    rw [if_neg]
    simp only [List.mem_append, List.mem_singleton, not_or]
    refine ⟨⟨⟨fun hk => ?_, fun hk => ?_⟩, fun hk => ?_⟩, fun hk => ?_⟩
    · obtain h | ⟨h, _⟩ := usesExact_kvExactMode (hkv hk) <;> simp [ht] at h
    · simpa [ht] using hpd hk
    · simpa [ht] using htuning hk
    · simpa [ht] using (hboot hk).right
  case singleRole =>
    simp only [serializeTopology, JsObject.get_delete]
    rw [if_neg]
    simp only [List.mem_append, List.mem_singleton, not_or]
    refine ⟨⟨fun hk => ?_, fun hk => ?_⟩, fun hk => ?_⟩
    · simpa [ht] using hpd hk
    · simpa [ht] using htuning hk
    · simpa [ht] using (hboot hk).right
  case pd =>
    simp only [serializeTopology]
    rw [get_deleteIf_of, get_deleteIf_of]
    · intro hk
      obtain h | ⟨_, h⟩ := usesExact_kvExactMode (hkv hk)
      · simp [ht] at h
      · rw [hx, h]
        rfl
    · intro hk
      rw [(hboot (List.mem_singleton.mp hk)).left]
      rfl

theorem serializeEngine_get (hv : ValidRule args es) (ho : ¬LeftOut args k)
    (hx : usesExact args = true →
      usesExactEventRouting (a.get "kvExactMode") (resolveAITopology args) = true) :
    (serializeEngine (engineOf args) (resolveAITopology args) a).get k = a.get k := by
  have hkv (hk : k ∈ kvFields) : usesExact args = true := by
    by_contra h
    exact ho <| .kv k hk <| by simpa using h
  unfold serializeEngine
  extract_lets fanOut b c
  have hb : b.get k = a.get k := get_deleteIf_of fun hk => by
    obtain rfl := List.mem_singleton.mp hk
    have hs : (engineOf args).strictEq (.string "sglang") = true := by
      by_contra h
      exact ho <| .rank <| by simpa using h
    simp [fanOut, hs, hx <| hkv <| by decide]
  have hc : c.get k = a.get k := by
    rw [← hb]
    refine get_deleteIf_of fun hk => ?_
    obtain rfl := List.mem_singleton.mp hk
    have ht : (engineOf args).strictEq (.string "trtllm") = false := by
      by_contra h
      exact ho <| .zmq <| by simpa using h
    simp [ht, hv.engine <| hkv <| by decide]
  rw [get_deleteIf_of, hc]
  exact fun hk => hv.engine <| hkv hk

theorem serializeAdmissionFields_get (hk : k ∉ admissionFields) :
    (serializeAdmissionFields a topology).get k = a.get k := by
  unfold serializeAdmissionFields
  split
  case isTrue => rw [JsObject.get_delete, if_neg hk]
  case isFalse =>
    rw [get_deleteIf_of, JsObject.get_delete, if_neg]
    · exact fun h => hk <| List.mem_of_mem_filter h
    · intro h
      have hsub : fcPdOnlyFields ⊆ admissionFields := by decide
      exact absurd (hsub h) hk

theorem serializeStrictProfileFields_get (hp : Present (a.get k))
    (h : k ∈ ["kvModelProfile", "kvExactApiMode"] →
      isZero (a.get "kvExactMode") = false ∧ hasValue (a.get "kvModelProfile") = true) :
    (serializeStrictProfileFields a).get k = a.get k := by
  unfold serializeStrictProfileFields
  extract_lets b c exactMode
  have hb : b.get k = a.get k := get_deleteIf_of fun hk => by
    rw [← List.mem_singleton.mp hk, hp.hasValue]
    rfl
  have hc : c.get k = a.get k := by
    rw [← hb]
    refine get_deleteIf_of fun hk => ?_
    rw [← List.mem_singleton.mp hk, hb, hp.hasValue]
    rfl
  rw [get_deleteIf_of, hc]
  intro hk
  obtain ⟨hx, hm⟩ := h hk
  have hcx : c.get "kvExactMode" = a.get "kvExactMode" := by simp [c, b]
  have hcm : c.get "kvModelProfile" = a.get "kvModelProfile" := by simp [c, b, hm]
  have hu : isUndefined (a.get "kvModelProfile") = false := by
    cases hv : a.get "kvModelProfile" <;> simp_all [hasValue, JsValue.isNil, isUndefined]
  simp only [exactMode, hcx, hcm, nonzero_orElse hx, nonzero_strictEq hx, hu, Bool.or_self]

-- The members of a fullproxy rule, as they leave `serializeAIConfiguration`.
def serializeGateway (engine : JsValue) (topology : AITopology) (args : JsObject) : JsObject :=
  serializeStrictProfileFields <| serializeAdmissionFields (serializeEngine engine topology <|
    serializeTopology engine topology <| serializeHash <| serializeCredentials args) topology

def leftOutFields : List String :=
  ["jwt_auth_profile", "kvExactApiMode"] ++ chwblTuningFields ++ kvFields ++ pdTuningFields

theorem LeftOut.mem (h : LeftOut args k) : k ∈ leftOutFields := by
  simp only [leftOutFields, List.mem_append]
  cases h
  case ring _ hm   => exact .inl <| .inl <| .inr hm
  case kv _ hm     => exact .inl <| .inr hm
  case tuning _ hm => exact .inr hm
  all_goals decide

theorem leftOut_kvExactMode (h : LeftOut args k) (hk : k = "kvExactMode") : usesExact args = false := by
  cases h
  case kv hu _ => exact hu
  case ring _ hm =>
    subst hk
    exact absurd hm (by decide)
  case tuning _ hm =>
    subst hk
    exact absurd hm (by decide)
  all_goals contradiction

theorem kvExactMode_present (h : usesExact args = true) : Present (args.get "kvExactMode") := by
  obtain h | ⟨_, h⟩ := usesExact_kvExactMode h
  · rw [singleRole_inv h]
    exact ⟨rfl, rfl⟩
  · rw [h]
    exact ⟨rfl, rfl⟩

structure SameConditions (a args : JsObject) : Prop where
  apiKeyAuth  : a.get "api_key_auth" = args.get "api_key_auth"
  sel         : a.get "sel" = args.get "sel"
  exactMode   : a.get "kvExactMode" = args.get "kvExactMode"
  profile     : a.get "kvModelProfile" = args.get "kvModelProfile"

theorem serializeCredentials_frame (h : k ∉ ["api_key_auth", "jwt_auth_profile"]) :
    (serializeCredentials a).get k = a.get k := by
  simp only [List.mem_cons, List.not_mem_nil, or_false, not_or] at h
  simp [serializeCredentials, h.left, h.right]

theorem serializeHash_frame (h : k ∉ ["kvHashAlgo", "chwbl_prefix_hash_level",
    "chwbl_prefix_hash_flags"]) (ht : k ∉ chwblTuningFields) :
    (serializeHash a).get k = a.get k := by
  simp only [List.mem_cons, List.not_mem_nil, or_false, not_or] at h
  unfold serializeHash
  extract_lets b c d
  have hd : d.get k = a.get k := by
    simp [d, c, b, h.left, h.right.left, h.right.right]
  split
  case isTrue  => rw [JsObject.get_delete, if_neg ht, hd]
  case isFalse =>
    rw [JsObject.get_delete, if_neg, hd]
    exact fun hm => ht <| List.mem_of_mem_filter hm

theorem serializeTopology_frame (h : k ∉ kvFields ++ ["pd_disagg_mode"] ++ pdTuningFields ++
    ["pdBootstrapPort"]) : (serializeTopology engine topology a).get k = a.get k := by
  simp only [List.mem_append, not_or] at h
  cases topology <;> simp_all [serializeTopology]

theorem serializeEngine_frame (h : k ∉ kvFields) :
    (serializeEngine engine topology a).get k = a.get k := by
  have hk (j : String) (hj : j ∈ kvFields) : k ≠ j := fun hk => h (hk ▸ hj)
  simp [serializeEngine, h, hk "kvDpRankCount" (by decide), hk "kvZmqPort" (by decide)]

section Conditions

variable (hv : ValidRule args es) (hs : SameConditions a args)
include hv hs

-- The members of a rule up to the profile, which looks at two of them.
theorem serializeStages_get (hp : Present (a.get k)) (hq : Present (args.get k))
    (hn : isZero (args.get k) = false) (ho : ¬LeftOut args k) :
    (serializeEngine (engineOf args) (resolveAITopology args) <|
      serializeTopology (engineOf args) (resolveAITopology args) <| serializeHash <|
      serializeCredentials a).get k = a.get k := by
  have hjwt (hk : k = "jwt_auth_profile") : requiresJwtProfile (a.get "api_key_auth") = true := by
    by_contra h
    refine ho (hk ▸ .jwt ?_)
    simpa [hs.apiKeyAuth] using h
  have hring (hk : k ∈ chwblTuningFields) : isChwblSelector ((serializeCredentials a).get "sel") = true := by
    by_contra h
    refine ho (.ring k hk ?_)
    simpa [serializeCredentials, hs.sel] using h
  have h₁ := serializeCredentials_get hp hjwt
  have h₂ := serializeHash_get (h₁ ▸ hp) hring
  have hx : (serializeHash <| serializeCredentials a).get "kvExactMode" = args.get "kvExactMode" := by
    rw [serializeHash_frame (by decide) (by decide), serializeCredentials_frame (by decide), hs.exactMode]
  have h₃ := serializeTopology_get hv hq hn ho hx
  have h₄ := serializeEngine_get (k := k) hv ho (a := serializeTopology (engineOf args)
    (resolveAITopology args) <| serializeHash <| serializeCredentials a) fun hu => ?_
  · exact h₄.trans <| h₃.trans <| h₂.trans h₁
  · have hm : isZero (args.get "kvExactMode") = false := by
      obtain h | ⟨_, h⟩ := usesExact_kvExactMode hu
      · rw [singleRole_inv h]
        rfl
      · rw [h]
        rfl
    have hk := serializeTopology_get hv (kvExactMode_present hu) hm
      (fun ho => by simp [leftOut_kvExactMode ho rfl] at hu) hx
    rw [hk, hx]
    exact hu

theorem serializeGateway_get (hp : Present (a.get k)) (hq : Present (args.get k))
    (hn : isZero (args.get k) = false) (ho : ¬LeftOut args k) (hk : k ∉ admissionFields) :
    (serializeGateway (engineOf args) (resolveAITopology args) a).get k = a.get k := by
  have h := serializeStages_get hv hs hp hq hn ho
  rw [serializeGateway, serializeStrictProfileFields_get, serializeAdmissionFields_get hk, h]
  · rwa [serializeAdmissionFields_get hk, h]
  · intro hm
    have hmodel : hasValue (args.get "kvModelProfile") = true := by
      by_contra hmodel
      simp only [List.mem_cons, List.not_mem_nil, or_false] at hm
      obtain rfl | rfl := hm
      · exact hmodel hq.hasValue
      · exact ho <| .apiMode <| by simpa using hmodel
    have hz := hv.profile hmodel
    have hu := hv.exact hz
    have hx := serializeStages_get hv hs (hs.exactMode ▸ kvExactMode_present hu) (kvExactMode_present hu)
      hz (fun ho => by simp [leftOut_kvExactMode ho rfl] at hu)
    rw [serializeAdmissionFields_get (by decide), serializeAdmissionFields_get (by decide), hx,
      hs.exactMode, serializeEngine_frame (by decide), serializeTopology_frame (by decide),
      serializeHash_frame (by decide) (by decide), serializeCredentials_frame (by decide), hs.profile]
    exact ⟨hz, hmodel⟩

end Conditions

end Serialize

end AIGateway
