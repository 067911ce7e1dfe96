import LoxilbUi.Types.Theorems.AIGateway
import LoxilbUi.Types.Theorems.BackendTls

-- The stages of the serializer of a fullproxy rule, by the members that are there: what each of them
-- leaves, and that it leaves everything where nothing is superfluous.

namespace AIGateway

open LoadBalancer BackendTls

variable {args a b c : JsObject} {k : String} {v engine : JsValue} {topology : AITopology}
variable {g : Bool} {fields : List String}

section Cut

-- Members of the first object are taken out of the second, and none is changed.
def Cut (a b : JsObject) : Prop :=
  ∀ k v, b.get? k = some v → a.get? k = some v

namespace Cut

theorem refl : Cut a a :=
  fun _ _ => id

theorem trans (h : Cut a b) (h' : Cut b c) : Cut a c :=
  fun k v hv => h k v <| h' k v hv

theorem none_of (h : Cut a b) (hk : a.get? k = none) : b.get? k = none := by
  cases hb : b.get? k
  case none   => rfl
  case some v => simp [h k v hb] at hk

theorem get (h : Cut a b) (k : String) : b.get k = a.get k ∨ b.get k = .undefined := by
  cases hb : b.get? k
  case none   => exact .inr <| by rw [JsObject.get, hb, Option.getD_none]
  case some v =>
    exact .inl <| by rw [JsObject.get_of_get? hb, JsObject.get_of_get? (h k v hb)]

theorem delete : Cut a (a.delete fields) := by
  intro k v hv
  rw [JsObject.get?_delete] at hv
  split at hv
  case isTrue  => contradiction
  case isFalse => exact hv

theorem deleteIf : Cut a (deleteIf g fields a) := by
  cases g
  case false => exact .refl
  case true  => exact .delete

end Cut

@[simp]
theorem get?_deleteIf :
    (deleteIf g fields a).get? k = if g = true ∧ k ∈ fields then none else a.get? k := by
  cases g <;> simp [deleteIf]

-- What is still there was not to be deleted.
theorem deleteIf_inv (h : (deleteIf g fields a).get? k = some v) :
    a.get? k = some v ∧ (k ∈ fields → g = false) := by
  rw [get?_deleteIf] at h
  split at h
  case isTrue => contradiction
  case isFalse hn =>
    refine ⟨h, fun hk => ?_⟩
    by_contra hg
    exact hn ⟨by simpa using hg, hk⟩

theorem deleteIf_eq_self (h : g = true → ∀ k ∈ fields, a.get? k = none) : deleteIf g fields a = a := by
  cases g
  case false => rfl
  case true  => exact JsObject.delete_eq_self <| h rfl

theorem none_of_absurd (h : ∀ v, a.get? k = some v → False) : a.get? k = none := by
  cases hv : a.get? k
  case none   => rfl
  case some v => exact (h v hv).elim

end Cut

section ReadOnly

theorem readOnly_get (h : k ∉ readOnlyServiceArguments) :
    (args.delete readOnlyServiceArguments).get k = args.get k := by
  rw [JsObject.get_delete, if_neg h]

theorem typed_readOnly (h : Typed args) : Typed (args.delete readOnlyServiceArguments) where
  texts   := by
    intro field hf
    have hk : ∀ field ∈ backendTlsStringFields, field ∉ readOnlyServiceArguments := by decide
    rw [readOnly_get (hk field hf)]
    exact h.texts field hf
  backend := by
    rw [readOnly_get (by decide)]
    exact h.backend

end ReadOnly

section Credentials

theorem serializeCredentials_cut : Cut a (serializeCredentials a) :=
  Cut.deleteIf.trans .deleteIf

theorem serializeCredentials_inv (h : (serializeCredentials a).get? k = some v) :
    a.get? k = some v ∧ (k = "api_key_auth" → v.truthy = true) ∧
    (k = "jwt_auth_profile" → v.truthy = true ∧
      requiresJwtProfile ((serializeCredentials a).get "api_key_auth") = true) := by
  generalize hr : serializeCredentials a = r at h ⊢
  unfold serializeCredentials at hr
  extract_lets b at hr
  have hkey : r.get "api_key_auth" = b.get "api_key_auth" := by
    rw [← hr, get_deleteIf_of fun hk => absurd hk (by decide)]
  obtain ⟨h, hj⟩ := deleteIf_inv (hr ▸ h)
  have hb := JsObject.get_of_get? h
  obtain ⟨h, ha⟩ := deleteIf_inv h
  have hv := JsObject.get_of_get? h
  refine ⟨h, ?_, ?_⟩
  · rintro rfl
    simpa [hv] using ha (by simp)
  · rintro rfl
    have hj := hj (by simp)
    simp only [hb, Bool.or_eq_false_iff, Bool.not_eq_false'] at hj
    exact hkey ▸ hj.symm

theorem serializeCredentials_eq_self (ha : ∀ v, a.get? "api_key_auth" = some v → v.truthy = true)
    (hj : ∀ v, a.get? "jwt_auth_profile" = some v →
      v.truthy = true ∧ requiresJwtProfile (a.get "api_key_auth") = true) :
    serializeCredentials a = a := by
  unfold serializeCredentials
  extract_lets b
  have hb : b = a := deleteIf_eq_self fun hg k hk => none_of_absurd fun v hv => by
    obtain rfl := List.mem_singleton.mp hk
    simp [JsObject.get_of_get? hv, ha v hv] at hg
  rw [hb]
  refine deleteIf_eq_self fun hg k hk => none_of_absurd fun v hv => ?_
  obtain rfl := List.mem_singleton.mp hk
  simp [JsObject.get_of_get? hv, hj v hv] at hg

end Credentials

section Hash

theorem serializeHash_cut : Cut a (serializeHash a) := by
  unfold serializeHash
  extract_lets b c d
  have h : Cut a d := (Cut.deleteIf.trans .deleteIf).trans .deleteIf
  split
  case isTrue  => exact h.trans .delete
  case isFalse => exact h.trans .delete

theorem serializeHash_inv (h : (serializeHash a).get? k = some v) :
    a.get? k = some v ∧ (k = "kvHashAlgo" → v.truthy = true) ∧
    (k ∈ ["chwbl_prefix_hash_level", "chwbl_prefix_hash_flags"] → hasValue v = true) ∧
    (k ∈ chwblTuningFields → hasValue v = true ∧ isChwblSelector (a.get "sel") = true) := by
  unfold serializeHash at h
  extract_lets b c d at h
  have hsel : d.get "sel" = a.get "sel" := by
    simp [d, c, b]
  have hd : d.get? k = some v ∧
      (k ∈ chwblTuningFields → hasValue v = true ∧ isChwblSelector (a.get "sel") = true) := by
    split at h <;> rw [JsObject.get?_delete] at h <;> split at h
    case isTrue.isTrue | isFalse.isTrue => contradiction
    case isTrue.isFalse hn => exact ⟨h, fun hk => absurd hk hn⟩
    case isFalse.isFalse hs hn =>
      refine ⟨h, fun hk => ?_⟩
      simp only [List.mem_filter, hk, true_and, JsObject.get_of_get? h, Bool.not_eq_true',
        Bool.not_eq_false] at hn
      exact ⟨hn, by simpa [hsel] using hs⟩
  obtain ⟨h, hring⟩ := hd
  obtain ⟨h, h₃⟩ := deleteIf_inv h
  have hc := JsObject.get_of_get? h
  obtain ⟨h, h₂⟩ := deleteIf_inv h
  have hb := JsObject.get_of_get? h
  obtain ⟨h, h₁⟩ := deleteIf_inv h
  have hv := JsObject.get_of_get? h
  refine ⟨h, ?_, ?_, hring⟩
  · rintro rfl
    simpa [hv] using h₁ (by simp)
  · simp only [List.mem_cons, List.not_mem_nil, or_false]
    rintro (rfl | rfl)
    · simpa [hb] using h₂ (by simp)
    · simpa [hc] using h₃ (by simp)

theorem serializeHash_eq_self (h₁ : ∀ v, a.get? "kvHashAlgo" = some v → v.truthy = true)
    (h₂ : ∀ k ∈ ["chwbl_prefix_hash_level", "chwbl_prefix_hash_flags"], ∀ v, a.get? k = some v →
      hasValue v = true)
    (h₃ : ∀ k ∈ chwblTuningFields, ∀ v, a.get? k = some v →
      hasValue v = true ∧ isChwblSelector (a.get "sel") = true) : serializeHash a = a := by
  unfold serializeHash
  extract_lets b c d
  have hb : b = a := deleteIf_eq_self fun hg k hk => none_of_absurd fun v hv => by
    obtain rfl := List.mem_singleton.mp hk
    simp [JsObject.get_of_get? hv, h₁ v hv] at hg
  have hc : c = a := by
    simp only [c, hb]
    refine deleteIf_eq_self fun hg k hk => none_of_absurd fun v hv => ?_
    obtain rfl := List.mem_singleton.mp hk
    simp [JsObject.get_of_get? hv, h₂ _ (by simp) v hv] at hg
  have hd : d = a := by
    simp only [d, hc]
    refine deleteIf_eq_self fun hg k hk => none_of_absurd fun v hv => ?_
    obtain rfl := List.mem_singleton.mp hk
    simp [JsObject.get_of_get? hv, h₂ _ (by simp) v hv] at hg
  rw [hd]
  split
  case isTrue hs =>
    refine JsObject.delete_eq_self fun k hk => none_of_absurd fun v hv => ?_
    simp [h₃ k hk v hv] at hs
  case isFalse =>
    refine JsObject.delete_eq_self fun k hk => none_of_absurd fun v hv => ?_
    obtain ⟨hk, hn⟩ := List.mem_filter.mp hk
    simp [JsObject.get_of_get? hv, h₃ k hk v hv] at hn

end Hash

section Topology

theorem serializeTopology_cut : Cut a (serializeTopology engine topology a) := by
  cases topology
  case plain      => exact .delete
  case singleRole => exact .delete
  case pd         => exact Cut.deleteIf.trans .deleteIf

theorem serializeTopology_inv (h : (serializeTopology engine topology a).get? k = some v) :
    a.get? k = some v ∧ (k ∈ "pd_disagg_mode" :: pdTuningFields → topology = .pd) ∧
    (k = "pdBootstrapPort" → topology = .pd ∧ engine.strictEq (.string "sglang") = true) ∧
    (k ∈ kvFields → usesExactEventRouting (a.get "kvExactMode") topology = true) := by
  cases topology
  case plain =>
    simp only [serializeTopology, JsObject.get?_delete] at h
    split at h
    case isTrue => contradiction
    case isFalse hn =>
      simp only [List.mem_append, List.mem_singleton, not_or] at hn
      simp [h, hn]
  case singleRole =>
    simp only [serializeTopology, JsObject.get?_delete] at h
    split at h
    case isTrue => contradiction
    case isFalse hn =>
      simp only [List.mem_append, List.mem_singleton, not_or] at hn
      simp [h, hn, usesExactEventRouting]
  case pd =>
    obtain ⟨h, hb⟩ := deleteIf_inv h
    obtain ⟨h, hk⟩ := deleteIf_inv h
    simp only [usesExactEventRouting, List.mem_singleton, Bool.not_eq_false'] at hb hk ⊢
    simpa [h] using ⟨hb, hk⟩

theorem serializeTopology_eq_self (h : ∀ k v, a.get? k = some v →
    (k ∈ "pd_disagg_mode" :: pdTuningFields → topology = .pd) ∧
    (k = "pdBootstrapPort" → topology = .pd ∧ engine.strictEq (.string "sglang") = true) ∧
    (k ∈ kvFields → usesExactEventRouting (a.get "kvExactMode") topology = true)) :
    serializeTopology engine topology a = a := by
  cases topology
  case plain =>
    refine JsObject.delete_eq_self fun k hk => none_of_absurd fun v hv => ?_
    obtain ⟨hd, hb, hx⟩ := h k v hv
    simp only [List.mem_append, List.mem_singleton] at hk
    obtain ((hk | rfl) | hk) | hk := hk
    · simpa [usesExactEventRouting] using hx hk
    · simp at hd
    · simpa using hd <| List.mem_cons_of_mem _ hk
    · simpa using hb hk
  case singleRole =>
    refine JsObject.delete_eq_self fun k hk => none_of_absurd fun v hv => ?_
    obtain ⟨hd, hb, _⟩ := h k v hv
    simp only [List.mem_append, List.mem_singleton] at hk
    obtain (rfl | hk) | hk := hk
    · simp at hd
    · simpa using hd <| List.mem_cons_of_mem _ hk
    · simpa using hb hk
  case pd =>
    have hkv : deleteIf (!(a.get "kvExactMode").strictEq (.number 1)) kvFields a = a :=
      deleteIf_eq_self fun hg k hk => none_of_absurd fun v hv => by
        simpa [usesExactEventRouting, (Bool.not_eq_true' _).mp hg] using (h k v hv).right.right hk
    simp only [serializeTopology, hkv]
    refine deleteIf_eq_self fun hg k hk => none_of_absurd fun v hv => ?_
    simpa [(Bool.not_eq_true' _).mp hg] using (h k v hv).right.left <| List.mem_singleton.mp hk

end Topology

section Engine

theorem serializeEngine_cut : Cut a (serializeEngine engine topology a) :=
  (Cut.deleteIf.trans .deleteIf).trans .deleteIf

theorem serializeEngine_inv (h : (serializeEngine engine topology a).get? k = some v) :
    a.get? k = some v ∧ (k = "kvDpRankCount" → engine.strictEq (.string "sglang") = true) ∧
    (k = "kvZmqPort" → engine.strictEq (.string "trtllm") = false) ∧
    (k ∈ kvFields → engine.strictEq (.string "llamacpp") = false) := by
  unfold serializeEngine at h
  extract_lets fanOut b c at h
  obtain ⟨h, hl⟩ := deleteIf_inv h
  obtain ⟨h, hz⟩ := deleteIf_inv h
  obtain ⟨h, hr⟩ := deleteIf_inv h
  refine ⟨h, fun hk => ?_, fun hk => ?_, hl⟩
  · have hr := hr (by simp [hk])
    simp only [fanOut, Bool.not_eq_false', Bool.and_eq_true] at hr
    exact hr.left
  · have hz := hz (by simp [hk])
    simp only [Bool.or_eq_false_iff] at hz
    exact hz.left

theorem serializeEngine_eq_self (hx : ∀ k ∈ kvFields, ∀ v, a.get? k = some v →
      usesExactEventRouting (a.get "kvExactMode") topology = true ∧
      engine.strictEq (.string "llamacpp") = false)
    (hr : ∀ v, a.get? "kvDpRankCount" = some v → engine.strictEq (.string "sglang") = true)
    (hz : ∀ v, a.get? "kvZmqPort" = some v → engine.strictEq (.string "trtllm") = false) :
    serializeEngine engine topology a = a := by
  unfold serializeEngine
  extract_lets fanOut b c
  have hb : b = a := deleteIf_eq_self fun hg k hk => none_of_absurd fun v hv => by
    obtain rfl := List.mem_singleton.mp hk
    simp [fanOut, hx _ (by decide) v hv, hr v hv] at hg
  have hc : c = a := by
    simp only [c, hb]
    refine deleteIf_eq_self fun hg k hk => none_of_absurd fun v hv => ?_
    obtain rfl := List.mem_singleton.mp hk
    simp [hx _ (by decide) v hv, hz v hv] at hg
  rw [hc]
  exact deleteIf_eq_self fun hg k hk => none_of_absurd fun v hv => by simp [hx k hk v hv] at hg

end Engine

section Admission

theorem serializeAdmissionFields_cut : Cut a (serializeAdmissionFields a topology) := by
  unfold serializeAdmissionFields
  split
  case isTrue  => exact .delete
  case isFalse => exact Cut.delete.trans .deleteIf

theorem serializeAdmissionFields_inv (h : (serializeAdmissionFields a topology).get? k = some v) :
    a.get? k = some v ∧ (k ∈ admissionFields → isAIService a = true ∧ isFcBlank v = false) ∧
    (k ∈ fcPdOnlyFields → topology = .pd) := by
  unfold serializeAdmissionFields at h
  split at h
  case isTrue =>
    rw [JsObject.get?_delete] at h
    split at h
    case isTrue => contradiction
    case isFalse hn =>
      have hsub : fcPdOnlyFields ⊆ admissionFields := by decide
      exact ⟨h, fun hk => absurd hk hn, fun hk => absurd (hsub hk) hn⟩
  case isFalse hs =>
    obtain ⟨h, hp⟩ := deleteIf_inv h
    rw [JsObject.get?_delete] at h
    split at h
    case isTrue => contradiction
    case isFalse hn =>
      refine ⟨h, fun hk => ⟨by simpa using hs, ?_⟩, fun hk => by simpa using hp hk⟩
      simpa [List.mem_filter, hk, JsObject.get_of_get? h] using hn

theorem serializeAdmissionFields_eq_self
    (h : ∀ k ∈ admissionFields, ∀ v, a.get? k = some v → isAIService a = true ∧ isFcBlank v = false)
    (hp : ∀ k ∈ fcPdOnlyFields, ∀ v, a.get? k = some v → topology = .pd) :
    serializeAdmissionFields a topology = a := by
  unfold serializeAdmissionFields
  split
  case isTrue hs =>
    exact JsObject.delete_eq_self fun k hk => none_of_absurd fun v hv => by simp [h k hk v hv] at hs
  case isFalse =>
    have hb : a.delete (admissionFields.filter fun field => isFcBlank (a.get field)) = a := by
      refine JsObject.delete_eq_self fun k hk => none_of_absurd fun v hv => ?_
      obtain ⟨hk, hn⟩ := List.mem_filter.mp hk
      simp [JsObject.get_of_get? hv, h k hk v hv] at hn
    rw [hb]
    exact deleteIf_eq_self fun hg k hk => none_of_absurd fun v hv => by simp [hp k hk v hv] at hg

end Admission

section StrictProfile

def profileFields : List String :=
  ["kvModelProfile", "kvExactApiMode"]

def exactModeOf (args : JsObject) : JsValue :=
  (args.get "kvExactMode").orElse (.number 0)

-- A strict profile stands on exact routing alone, and the surface on the profile.
def HasProfile (args : JsObject) : Prop :=
  (exactModeOf args).strictEq (.number 0) = false ∧ isUndefined (args.get "kvModelProfile") = false

theorem serializeStrictProfileFields_cut : Cut a (serializeStrictProfileFields a) :=
  (Cut.deleteIf.trans .deleteIf).trans .deleteIf

theorem serializeStrictProfileFields_frame (h : k ∉ profileFields) :
    (serializeStrictProfileFields a).get k = a.get k := by
  simp only [profileFields, List.mem_cons, List.not_mem_nil, or_false, not_or] at h
  simp [serializeStrictProfileFields, h.left, h.right]

theorem serializeStrictProfileFields_inv (h : (serializeStrictProfileFields a).get? k = some v) :
    a.get? k = some v ∧
    (k ∈ profileFields → hasValue v = true ∧ HasProfile (serializeStrictProfileFields a)) := by
  have hx := @serializeStrictProfileFields_frame a "kvExactMode" (by decide)
  generalize hr : serializeStrictProfileFields a = r at h hx ⊢
  unfold serializeStrictProfileFields at hr
  extract_lets b c exactMode at hr
  have hexact : exactMode = exactModeOf r := by simp [exactMode, exactModeOf, hx, c, b]
  obtain ⟨h, hg⟩ := deleteIf_inv (hr ▸ h)
  have hc := JsObject.get_of_get? h
  obtain ⟨h, hm⟩ := deleteIf_inv h
  have hb := JsObject.get_of_get? h
  obtain ⟨h, hp⟩ := deleteIf_inv h
  have hv := JsObject.get_of_get? h
  refine ⟨h, fun hk => ?_⟩
  have hg := hg hk
  have hcr : c = r := by
    rw [← hr, hg]
    rfl
  simp only [hexact, hcr, Bool.or_eq_false_iff] at hg
  refine ⟨?_, hg⟩
  simp only [profileFields, List.mem_cons, List.not_mem_nil, or_false] at hk
  obtain rfl | rfl := hk
  · simpa [hv] using hp (by simp)
  · simpa [hb] using hm (by simp)

theorem serializeStrictProfileFields_eq_self
    (h : ∀ k ∈ profileFields, ∀ v, a.get? k = some v → hasValue v = true ∧ HasProfile a) :
    serializeStrictProfileFields a = a := by
  unfold serializeStrictProfileFields
  extract_lets b c exactMode
  have hb : b = a := deleteIf_eq_self fun hg k hk => none_of_absurd fun v hv => by
    obtain rfl := List.mem_singleton.mp hk
    simp [JsObject.get_of_get? hv, h _ (by decide) v hv] at hg
  have hc : c = a := by
    simp only [c, hb]
    refine deleteIf_eq_self fun hg k hk => none_of_absurd fun v hv => ?_
    obtain rfl := List.mem_singleton.mp hk
    simp [JsObject.get_of_get? hv, h _ (by decide) v hv] at hg
  simp only [exactMode, hc]
  refine deleteIf_eq_self fun hg k hk => none_of_absurd fun v hv => ?_
  obtain ⟨_, hx, hp⟩ := h k hk v hv
  rw [exactModeOf] at hx
  simp [hx, hp] at hg

end StrictProfile

section Gateway

theorem serializeGateway_cut : Cut a (serializeGateway engine topology a) :=
  serializeCredentials_cut.trans <| serializeHash_cut.trans <| serializeTopology_cut.trans <|
    serializeEngine_cut.trans <| serializeAdmissionFields_cut.trans serializeStrictProfileFields_cut

-- What no stage before the admission members touches.
theorem serializeStages_frame (h₁ : k ∉ ["api_key_auth", "jwt_auth_profile"])
    (h₂ : k ∉ ["kvHashAlgo", "chwbl_prefix_hash_level", "chwbl_prefix_hash_flags"])
    (h₃ : k ∉ chwblTuningFields)
    (h₄ : k ∉ kvFields ++ ["pd_disagg_mode"] ++ pdTuningFields ++ ["pdBootstrapPort"]) :
    (serializeEngine engine topology <| serializeTopology engine topology <| serializeHash <|
      serializeCredentials a).get k = a.get k := by
  have h₅ : k ∉ kvFields := fun hk => h₄ <| by simp [hk]
  rw [serializeEngine_frame h₅, serializeTopology_frame h₄, serializeHash_frame h₂ h₃,
    serializeCredentials_frame h₁]

def gatewayFields : List String :=
  ["api_key_auth", "jwt_auth_profile", "kvHashAlgo", "chwbl_prefix_hash_level",
    "chwbl_prefix_hash_flags"] ++ chwblTuningFields ++ kvFields ++ ["pd_disagg_mode"] ++
    pdTuningFields ++ ["pdBootstrapPort"] ++ admissionFields ++ profileFields

theorem serializeGateway_frame (h : k ∉ gatewayFields) :
    (serializeGateway engine topology a).get k = a.get k := by
  have hn {l : List String} (hl : l ⊆ gatewayFields) : k ∉ l := fun hk => h <| hl hk
  rw [serializeGateway, serializeStrictProfileFields_frame (hn <| by decide),
    serializeAdmissionFields_get (hn <| by decide), serializeStages_frame (hn <| by decide)
    (hn <| by decide) (hn <| by decide) (hn <| by decide)]

def tlsFields : List String :=
  "mtls_backend" :: backendTlsStringFields

theorem serializeGateway_tls (h : k ∈ tlsFields) :
    (serializeGateway engine topology a).get k = a.get k :=
  serializeGateway_frame <| (show ∀ k ∈ tlsFields, k ∉ gatewayFields by decide) k h

theorem serializeGateway_mode : (serializeGateway engine topology a).get "mode" = a.get "mode" :=
  serializeGateway_frame (by decide)

theorem serializeGateway_security :
    (serializeGateway engine topology a).get "security" = a.get "security" :=
  serializeGateway_frame (by decide)

theorem serializeGateway_sel : (serializeGateway engine topology a).get "sel" = a.get "sel" :=
  serializeGateway_frame (by decide)

theorem serializeGateway_engine :
    (serializeGateway engine topology a).get "kvEngineType" = a.get "kvEngineType" :=
  serializeGateway_frame (by decide)

theorem serializeGateway_disagg :
    (serializeGateway engine .pd a).get "pd_disagg_mode" = a.get "pd_disagg_mode" := by
  rw [serializeGateway, serializeStrictProfileFields_frame (by decide),
    serializeAdmissionFields_get (by decide), serializeEngine_frame (by decide)]
  have ht (c : JsObject) : (serializeTopology engine .pd c).get "pd_disagg_mode" = c.get "pd_disagg_mode" := by
    simp only [serializeTopology]
    rw [get_deleteIf_of fun h => absurd h (by decide), get_deleteIf_of fun h => absurd h (by decide)]
  rw [ht, serializeHash_frame (by decide) (by decide), serializeCredentials_frame (by decide)]

theorem isAIService_congr (hm : b.get "mode" = a.get "mode") (hs : b.get "sse_mode" = a.get "sse_mode")
    (hd : b.get "pd_disagg_mode" = a.get "pd_disagg_mode")
    (hk : b.get "api_key_auth" = a.get "api_key_auth") : isAIService b = isAIService a := by
  simp only [isAIService, hm, hs, hd, hk]

end Gateway

section Settled

-- A member that has its place on a fullproxy rule, by the other members of the rule.
structure Belongs (args : JsObject) (k : String) (v : JsValue) : Prop where
  credential : k = "api_key_auth" → v.truthy = true
  jwt        : k = "jwt_auth_profile" →
    v.truthy = true ∧ requiresJwtProfile (args.get "api_key_auth") = true
  hash       : k = "kvHashAlgo" → v.truthy = true
  level      : k ∈ ["chwbl_prefix_hash_level", "chwbl_prefix_hash_flags"] → hasValue v = true
  ring       : k ∈ chwblTuningFields → hasValue v = true ∧ isChwblSelector (args.get "sel") = true
  tuning     : k ∈ "pd_disagg_mode" :: pdTuningFields → resolveAITopology args = .pd
  bootstrap  : k = "pdBootstrapPort" →
    resolveAITopology args = .pd ∧ (engineOf args).strictEq (.string "sglang") = true
  kv         : k ∈ kvFields →
    usesExact args = true ∧ (engineOf args).strictEq (.string "llamacpp") = false
  rank       : k = "kvDpRankCount" → (engineOf args).strictEq (.string "sglang") = true
  zmq        : k = "kvZmqPort" → (engineOf args).strictEq (.string "trtllm") = false
  admission  : k ∈ admissionFields → isAIService args = true ∧ isFcBlank v = false
  pdOnly     : k ∈ fcPdOnlyFields → resolveAITopology args = .pd
  profile    : k ∈ profileFields → hasValue v = true ∧ HasProfile args

def Settled (args : JsObject) : Prop :=
  ∀ k v, args.get? k = some v → Belongs args k v

theorem serializeGateway_eq_self (h : Settled a) :
    serializeGateway (engineOf a) (resolveAITopology a) a = a := by
  have h₁ : serializeCredentials a = a :=
    serializeCredentials_eq_self (fun v hv => (h _ v hv).credential rfl) fun v hv => (h _ v hv).jwt rfl
  have h₂ : serializeHash a = a :=
    serializeHash_eq_self (fun v hv => (h _ v hv).hash rfl) (fun k hk v hv => (h k v hv).level hk)
      fun k hk v hv => (h k v hv).ring hk
  have h₃ : serializeTopology (engineOf a) (resolveAITopology a) a = a :=
    serializeTopology_eq_self fun k v hv =>
      ⟨(h k v hv).tuning, (h k v hv).bootstrap, fun hk => ((h k v hv).kv hk).left⟩
  have h₄ : serializeEngine (engineOf a) (resolveAITopology a) a = a :=
    serializeEngine_eq_self (fun k hk v hv => (h k v hv).kv hk) (fun v hv => (h _ v hv).rank rfl)
      fun v hv => (h _ v hv).zmq rfl
  have h₅ : serializeAdmissionFields a (resolveAITopology a) = a :=
    serializeAdmissionFields_eq_self (fun k hk v hv => (h k v hv).admission hk)
      fun k hk v hv => (h k v hv).pdOnly hk
  have h₆ : serializeStrictProfileFields a = a :=
    serializeStrictProfileFields_eq_self fun k hk v hv => (h k v hv).profile hk
  rw [serializeGateway, h₁, h₂, h₃, h₄, h₅, h₆]

section Conditions

-- The conditions of a rule are those of what it is sent as, wherever a member hangs on them.
variable (a) in
def gateway : JsObject :=
  serializeGateway (engineOf a) (resolveAITopology a) a

theorem gateway_engine : engineOf (gateway a) = engineOf a := by
  rw [engineOf, gateway, serializeGateway_engine, engineOf]

theorem topology_eq_pd : resolveAITopology a = .pd ↔ (a.get "pd_disagg_mode").truthy = true := by
  unfold resolveAITopology
  split
  case isTrue h  => simp [h]
  case isFalse h => split <;> simp [h]

theorem gateway_pd (h : resolveAITopology a = .pd) : resolveAITopology (gateway a) = .pd := by
  rw [topology_eq_pd, gateway, h, serializeGateway_disagg, ← topology_eq_pd, h]

theorem gateway_pd_iff : resolveAITopology (gateway a) = .pd ↔ resolveAITopology a = .pd := by
  refine ⟨fun h => ?_, gateway_pd⟩
  rw [topology_eq_pd] at h ⊢
  obtain hd | hd := (serializeGateway_cut (a := a)).get "pd_disagg_mode"
  · exact hd ▸ h
  · rw [gateway, hd] at h
    contradiction

theorem gateway_kvExactMode (hx : usesExact a = true)
    (hl : (engineOf a).strictEq (.string "llamacpp") = false) :
    (gateway a).get "kvExactMode" = a.get "kvExactMode" := by
  have he (c : JsObject) : (serializeEngine (engineOf a) (resolveAITopology a) c).get "kvExactMode" =
      c.get "kvExactMode" := by
    simp [serializeEngine, hl]
  have ht (c : JsObject) (hc : c.get "kvExactMode" = a.get "kvExactMode") :
      (serializeTopology (engineOf a) (resolveAITopology a) c).get "kvExactMode" =
        c.get "kvExactMode" := by
    obtain h | ⟨h, hone⟩ := usesExact_kvExactMode hx
    · rw [h, serializeTopology, JsObject.get_delete, if_neg (by decide)]
    · simp only [h, serializeTopology]
      rw [get_deleteIf_of fun hk => absurd hk (by decide), get_deleteIf_of]
      intro
      rw [hc, hone]
      rfl
  have hc : (serializeHash <| serializeCredentials a).get "kvExactMode" = a.get "kvExactMode" := by
    rw [serializeHash_frame (by decide) (by decide), serializeCredentials_frame (by decide)]
  rw [gateway, serializeGateway, serializeStrictProfileFields_frame (by decide),
    serializeAdmissionFields_get (by decide), he, ht _ hc, hc]

theorem gateway_usesExact (hx : usesExact a = true)
    (hl : (engineOf a).strictEq (.string "llamacpp") = false) : usesExact (gateway a) = true := by
  have hk := gateway_kvExactMode hx hl
  obtain h | ⟨h, hone⟩ := usesExact_kvExactMode hx
  case inl =>
    have hd : ((gateway a).get "pd_disagg_mode").truthy = false := by
      have hd : (a.get "pd_disagg_mode").truthy = false := by
        by_contra hd
        simp [topology_eq_pd.mpr (by simpa using hd)] at h
      obtain hg | hg := (serializeGateway_cut (a := a)).get "pd_disagg_mode"
      · exact (congrArg _ hg).trans hd
      · exact congrArg _ hg
    have ht : resolveAITopology (gateway a) = .singleRole := by
      rw [resolveAITopology, hd, hk, singleRole_inv h]
      rfl
    simp [usesExact, usesExactEventRouting, ht]
  case inr =>
    simp only [usesExact, usesExactEventRouting, gateway_pd h, hk, hone]
    rfl

theorem gateway_apiKeyAuth :
    (gateway a).get "api_key_auth" = (serializeCredentials a).get "api_key_auth" := by
  rw [gateway, serializeGateway, serializeStrictProfileFields_frame (by decide),
    serializeAdmissionFields_get (by decide), serializeEngine_frame (by decide),
    serializeTopology_frame (by decide), serializeHash_frame (by decide) (by decide)]

theorem isAIService_staged :
    isAIService (serializeStrictProfileFields <| serializeAdmissionFields a topology) = isAIService a := by
  apply isAIService_congr <;>
    rw [serializeStrictProfileFields_frame (by decide), serializeAdmissionFields_get (by decide)]

end Conditions

-- What the stages leave has its place on what they leave.
theorem gateway_settled : Settled (gateway a) := by
  intro k v h
  obtain ⟨h, hprofile⟩ := serializeStrictProfileFields_inv h
  obtain ⟨h, hadmission, hpdOnly⟩ := serializeAdmissionFields_inv h
  obtain ⟨h, hrank, hzmq, hllama⟩ := serializeEngine_inv h
  obtain ⟨h, htuning, hbootstrap, hkv⟩ := serializeTopology_inv h
  obtain ⟨h, hhash, hlevel, hring⟩ := serializeHash_inv h
  obtain ⟨_, hcredential, hjwt⟩ := serializeCredentials_inv h
  have hx : (serializeHash <| serializeCredentials a).get "kvExactMode" = a.get "kvExactMode" := by
    rw [serializeHash_frame (by decide) (by decide), serializeCredentials_frame (by decide)]
  have hsel : (serializeCredentials a).get "sel" = (gateway a).get "sel" := by
    rw [serializeCredentials_frame (by decide), gateway, serializeGateway_sel]
  rw [hx] at hkv
  rw [hsel] at hring
  constructor
  case credential => exact hcredential
  case jwt =>
    rw [gateway_apiKeyAuth]
    exact hjwt
  case hash   => exact hhash
  case level  => exact hlevel
  case ring   => exact hring
  case tuning => exact fun hk => gateway_pd <| htuning hk
  case bootstrap =>
    rw [gateway_engine]
    exact fun hk => ⟨gateway_pd (hbootstrap hk).left, (hbootstrap hk).right⟩
  case kv =>
    rw [gateway_engine]
    exact fun hk => ⟨gateway_usesExact (hkv hk) (hllama hk), hllama hk⟩
  case rank =>
    rw [gateway_engine]
    exact hrank
  case zmq =>
    rw [gateway_engine]
    exact hzmq
  case admission =>
    rw [gateway, serializeGateway, isAIService_staged]
    exact hadmission
  case pdOnly  => exact fun hk => gateway_pd <| hpdOnly hk
  case profile => exact hprofile

end Settled

end AIGateway
