import LoxilbUi.Types.BackendTls

-- What the backend TLS part of the wire body leaves of a rule.

namespace BackendTls

variable {args r b : JsObject} {applies : Bool} {k field : String} {v w : JsValue}
variable {ms : List (String × JsValue)} {fs : List String}

structure Typed (args : JsObject) : Prop where
  texts   : ∀ field ∈ backendTlsStringFields,
    args.get field = .undefined ∨ ∃ s, args.get field = .string s
  backend : args.get "mtls_backend" = .undefined ∨ ∃ ms, args.get "mtls_backend" = .object ms

def sentText (applies : Bool) (s : String) : JsValue :=
  if !applies || s = "" then .undefined else .string s

theorem serializeText_spec (applies : Bool) (r : JsObject) {s : String} (h : text (args.get field) = some s) :
    ∃ r', serializeText applies args r field = some r' ∧
      ∀ k, r'.get k = if k = field then sentText applies s else r.get k := by
  simp only [serializeText, h, sentText, Option.bind_eq_bind, Option.bind_some]
  split
  case isTrue  => exact ⟨_, rfl, fun k => by simp⟩
  case isFalse => exact ⟨_, rfl, fun k => by simp⟩

theorem texts_spec (applies : Bool) (h : ∀ field ∈ fs, ∃ s, text (args.get field) = some s) (r : JsObject) :
    ∃ r', fs.foldlM (serializeText applies args) r = some r' ∧
      (∀ k ∉ fs, r'.get k = r.get k) ∧
      ∀ k ∈ fs, ∀ s, text (args.get k) = some s → r'.get k = sentText applies s := by
  induction fs generalizing r
  case nil => exact ⟨r, rfl, fun _ _ => rfl, by simp⟩
  case cons field fs hi =>
    obtain ⟨s, hs⟩ := h field (by simp)
    obtain ⟨r₁, h₁, hg⟩ := serializeText_spec applies r hs
    obtain ⟨r', h₂, hout, hin⟩ := hi (fun field hf => h field (by simp [hf])) r₁
    refine ⟨r', by simp [List.foldlM_cons, h₁, h₂], fun k hk => ?_, fun k hk s' hs' => ?_⟩
    · simp only [List.mem_cons, not_or] at hk
      rw [hout k hk.right, hg, if_neg hk.left]
    · by_cases hm : k ∈ fs
      · exact hin k hm s' hs'
      · obtain rfl : k = field := by simpa [hm] using hk
        rw [hout k hm, hg, if_pos rfl]
        rw [hs] at hs'
        cases hs'
        rfl

-- What is left of the members: the flag stays where it asks for something.
def keptMembers (applies : Bool) (ms : List (String × JsValue)) : List (String × JsValue) :=
  let retired := ms.filter (·.1 ≠ "verify_server_cert")
  if applies && ((JsValue.object ms).get "verify_server_cert").truthy then
    retired ++ [("verify_server_cert", .bool true)]
  else retired

theorem mem_keptMembers {m : String × JsValue} (h : m ∈ keptMembers applies ms) :
    m ∈ ms ∨ m = ("verify_server_cert", .bool true) := by
  simp only [keptMembers] at h
  split at h
  case isTrue  => simpa using (List.mem_append.mp h).imp_left List.mem_of_mem_filter
  case isFalse => exact .inl <| List.mem_of_mem_filter h

theorem keptMembers_get (h : k = "verify_server_cert" →
    applies = true ∧ (JsValue.object ms).get k = .bool true) :
    (JsValue.object <| keptMembers applies ms).get k = (JsValue.object ms).get k := by
  have hf := Dict.lookup_filter (l := ms) (k := k) (p := fun j => decide (j ≠ "verify_server_cert"))
  by_cases hk : k = "verify_server_cert"
  · obtain ⟨ha, hw⟩ := h hk
    subst hk
    have hkept : keptMembers applies ms =
        ms.filter (·.1 ≠ "verify_server_cert") ++ [("verify_server_cert", .bool true)] := by
      simp [keptMembers, ha, hw, JsValue.truthy]
    rw [hw, hkept, JsValue.get, List.lookup_append, hf]
    rfl
  · have hr : (keptMembers applies ms).lookup k = ms.lookup k := by
      rw [if_pos (by simpa using hk)] at hf
      simp only [keptMembers]
      generalize (applies && _) = c
      cases c
      case true  => simp only [if_true, List.lookup_append, hf, Dict.lookup_cons, if_neg hk]; simp
      case false => simpa using hf
    rw [JsValue.get, hr, JsValue.get]

theorem serializeVerification_spec (applies : Bool) (h : v = .undefined ∨ ∃ ms, v = .object ms) (r : JsObject) :
    ∃ b, serializeVerification applies r v = some b ∧
      (∀ k ≠ "mtls_backend", b.get k = r.get k) ∧
      ∀ ms, v = .object ms → keptMembers applies ms ≠ [] →
        b.get "mtls_backend" = .object (keptMembers applies ms) := by
  obtain rfl | ⟨ms, rfl⟩ := h
  case inl => exact ⟨r, rfl, fun _ _ => rfl, nofun⟩
  case inr =>
    simp only [serializeVerification]
    rw [← keptMembers]
    split
    case isTrue he  =>
      refine ⟨_, rfl, fun k hk => by simp [hk], ?_⟩
      rintro ms' ⟨⟩ hne
      exact absurd he hne
    case isFalse =>
      refine ⟨_, rfl, fun k hk => by simp [hk], ?_⟩
      rintro ms' ⟨⟩ _
      simp

theorem text_of_typed (h : Typed args) {field : String} (hf : field ∈ backendTlsStringFields) :
    ∃ s, text (args.get field) = some s := by
  obtain hu | ⟨s, hs⟩ := h.texts field hf
  · exact ⟨"", by rw [hu]; rfl⟩
  · exact ⟨_, by rw [hs]; rfl⟩

-- What the backend TLS part hands on.
structure BackendTlsPart (args b : JsObject) : Prop where
  others  : ∀ k ∉ backendTlsStringFields, k ≠ "mtls_backend" → b.get k = args.get k
  texts   : ∀ k ∈ backendTlsStringFields, ∀ s, args.get k = .string s → s ≠ "" → JsString.trim s = s →
    backendTlsApplies args = true → b.get k = .string s
  backend : ∀ ms, args.get "mtls_backend" = .object ms →
    keptMembers (backendTlsApplies args) ms ≠ [] →
    b.get "mtls_backend" = .object (keptMembers (backendTlsApplies args) ms)

theorem serializeBackendTls_spec (h : Typed args) :
    ∃ b, serializeBackendTls args = some b ∧ BackendTlsPart args b := by
  obtain ⟨r, hr, hout, hin⟩ := texts_spec (backendTlsApplies args)
    (fun field hf => text_of_typed h hf) args
  obtain ⟨b, hb, hother, hback⟩ := serializeVerification_spec (backendTlsApplies args) h.backend r
  refine ⟨b, by simp [serializeBackendTls, hr, hb], fun k hk hm => ?_, fun k hk s hs hne ht ha => ?_,
    hback⟩
  · rw [hother k hm, hout k hk]
  · have hm : k ≠ "mtls_backend" := by
      rintro rfl
      exact absurd hk (by decide)
    rw [hother k hm, hin k hk s (by rw [hs]; simp [text, ht]), sentText, ha]
    simp [hne]

section Sent

theorem text_trimmed {s : String} (h : text v = some s) : JsString.trim s = s := by
  cases v <;> simp only [text, Option.some.injEq, reduceCtorEq] at h
  case string => rw [← h, JsString.trim_trim]
  all_goals
    subst h
    rfl

theorem text_sentText {s : String} (h : JsString.trim s = s) : text (sentText true s) = some s := by
  simp only [sentText, Bool.not_true, Bool.false_or, decide_eq_true_eq]
  split
  case isTrue he  => rw [he, text]
  case isFalse he => rw [text, h]

theorem texts_inv (h : fs.foldlM (serializeText applies args) r = some b) :
    ∀ field ∈ fs, ∃ s, text (args.get field) = some s := by
  induction fs generalizing r
  case nil => simp
  case cons field fs hi =>
    rw [List.foldlM_cons] at h
    obtain ⟨r', hr, h⟩ := Option.bind_eq_some_iff.mp h
    obtain ⟨s, hs, _⟩ := Option.bind_eq_some_iff.mp hr
    exact List.forall_mem_cons.mpr ⟨⟨s, hs⟩, hi h⟩

theorem retired_get : (JsValue.object <| ms.filter (·.1 ≠ "verify_server_cert")).get "verify_server_cert" =
    .undefined := by
  have hf := Dict.lookup_filter (l := ms) (k := "verify_server_cert")
    (p := fun j => decide (j ≠ "verify_server_cert"))
  rw [JsValue.get, hf]
  rfl

-- The flag is asked for just where it was and the leg is re-encrypted.
theorem keptMembers_verify :
    ((JsValue.object <| keptMembers applies ms).get "verify_server_cert").truthy =
      (applies && ((JsValue.object ms).get "verify_server_cert").truthy) := by
  simp only [keptMembers]
  cases hg : applies && ((JsValue.object ms).get "verify_server_cert").truthy
  case false =>
    rw [if_neg nofun, retired_get]
    rfl
  case true =>
    have hf := Dict.lookup_filter (l := ms) (k := "verify_server_cert")
      (p := fun j => decide (j ≠ "verify_server_cert"))
    rw [if_pos rfl, JsValue.get, List.lookup_append, hf]
    rfl

theorem serializeVerification_inv (h : serializeVerification applies r v = some b)
    (hr : r.get "mtls_backend" = v) :
    (∀ k ≠ "mtls_backend", b.get k = r.get k) ∧
    verifies b = (applies && (v.get "verify_server_cert").truthy) := by
  cases v <;> simp only [serializeVerification, reduceCtorEq] at h
  case undefined =>
    cases h
    refine ⟨fun _ _ => rfl, ?_⟩
    rw [verifies, hr]
    simp [JsValue.get, JsValue.truthy]
  case object ms =>
    rw [← keptMembers] at h
    rw [← keptMembers_verify]
    split at h <;> cases h
    case isTrue he =>
      refine ⟨fun k hk => by simp [hk], ?_⟩
      rw [verifies, he]
      simp [JsValue.get, JsValue.truthy]
    case isFalse =>
      refine ⟨fun k hk => by simp [hk], ?_⟩
      rw [verifies]
      simp

-- What the backend TLS part hands on, told of its result.
structure BackendTlsSent (args b : JsObject) : Prop where
  others : ∀ k ∉ backendTlsStringFields, k ≠ "mtls_backend" → b.get k = args.get k
  texts  : ∀ k ∈ backendTlsStringFields, ∃ s, text (args.get k) = some s ∧
    b.get k = sentText (backendTlsApplies args) s
  verify : verifies b = (backendTlsApplies args && verifies args)

theorem serializeBackendTls_inv (h : serializeBackendTls args = some b) : BackendTlsSent args b := by
  simp only [serializeBackendTls, Option.bind_eq_bind, Option.bind_eq_some_iff] at h
  obtain ⟨r, hr, h⟩ := h
  have htext := texts_inv hr
  obtain ⟨r', hr', hout, hin⟩ := texts_spec (backendTlsApplies args) htext args
  obtain rfl : r = r' := Option.some.inj <| hr.symm.trans hr'
  have hm : r.get "mtls_backend" = args.get "mtls_backend" := hout _ (by decide)
  obtain ⟨hother, hverify⟩ := serializeVerification_inv h hm
  constructor
  case others => exact fun k hk hm => (hother k hm).trans <| hout k hk
  case texts =>
    intro k hk
    obtain ⟨s, hs⟩ := htext k hk
    refine ⟨s, hs, (hother k ?_).trans <| hin k hk s hs⟩
    rintro rfl
    exact absurd hk (by decide)
  case verify => exact hverify

theorem validateBackendTls_congr (hm : b.get "mode" = args.get "mode")
    (hs : b.get "security" = args.get "security")
    (ht : backendTlsApplies args = true →
      ∀ k ∈ backendTlsStringFields, text (b.get k) = text (args.get k))
    (hv : backendTlsApplies args = true → verifies b = verifies args) :
    validateBackendTls b = validateBackendTls args := by
  have ha : backendTlsApplies b = backendTlsApplies args := by
    simp only [backendTlsApplies, hm, hs]
  cases happ : backendTlsApplies args
  case false => simp [validateBackendTls, ha, happ]
  case true  =>
    have ht := ht happ
    simp only [validateBackendTls, ha, hv happ, ht "backend_ca_cert_id" (by decide),
      ht "backend_client_cert_id" (by decide), ht "backend_tls_server_name" (by decide)]

theorem BackendTlsSent.text_eq (h : BackendTlsSent args b) (ha : backendTlsApplies args = true)
    (hk : k ∈ backendTlsStringFields) : text (b.get k) = text (args.get k) := by
  obtain ⟨s, hs, hb⟩ := h.texts k hk
  rw [hb, ha, text_sentText <| text_trimmed hs, hs]

end Sent

section Settled

-- A backend TLS part that asks for nothing more than the gateway reads.
structure TlsSettled (args : JsObject) : Prop where
  texts   : ∀ k ∈ backendTlsStringFields, ∀ v, args.get? k = some v →
    backendTlsApplies args = true ∧ ∃ s, v = .string s ∧ s ≠ "" ∧ JsString.trim s = s
  backend : ∀ v, args.get? "mtls_backend" = some v → v = .undefined ∨
    ∃ ms, v = .object ms ∧ ms ≠ [] ∧ keptMembers (backendTlsApplies args) ms = ms

theorem keptMembers_idem : keptMembers applies (keptMembers applies ms) = keptMembers applies ms := by
  have hv := @keptMembers_verify applies ms
  cases hg : applies && ((JsValue.object ms).get "verify_server_cert").truthy
  case false =>
    have hk : keptMembers applies ms = ms.filter (·.1 ≠ "verify_server_cert") := by
      simp only [keptMembers, hg, Bool.false_eq_true, if_false]
    rw [hg] at hv
    rw [keptMembers, hv, Bool.and_false, if_neg nofun, hk, List.filter_filter]
    simp only [Bool.and_self]
  case true =>
    have hk : keptMembers applies ms =
        ms.filter (·.1 ≠ "verify_server_cert") ++ [("verify_server_cert", .bool true)] := by
      simp only [keptMembers, hg, if_true]
    rw [hg] at hv
    obtain ⟨rfl, _⟩ := Bool.and_eq_true_iff.mp hg
    rw [keptMembers, hv, Bool.and_self, if_pos rfl, hk, List.filter_append, List.filter_filter]
    simp

theorem texts_get? (h : fs.foldlM (serializeText applies args) r = some b) :
    (∀ k ∉ fs, b.get? k = r.get? k) ∧ ∀ k ∈ fs, ∀ v, b.get? k = some v →
      applies = true ∧ ∃ s, v = .string s ∧ s ≠ "" ∧ JsString.trim s = s := by
  induction fs generalizing r
  case nil =>
    cases h
    simp
  case cons field fs hi =>
    rw [List.foldlM_cons] at h
    obtain ⟨r₁, hr, h⟩ := Option.bind_eq_some_iff.mp h
    obtain ⟨hout, hin⟩ := hi h
    obtain ⟨s, hs, hr⟩ := Option.bind_eq_some_iff.mp hr
    have hr : (if !applies || s = "" then r.delete [field] else r.set field (.string s)) = r₁ :=
      Option.some.inj hr
    constructor
    case left =>
      intro k hk
      simp only [List.mem_cons, not_or] at hk
      rw [hout k hk.right, ← hr]
      split <;> simp [hk.left]
    case right =>
      intro k hk v hv
      by_cases hm : k ∈ fs
      · exact hin k hm v hv
      · obtain rfl : k = field := by simpa [hm] using hk
        rw [hout k hm, ← hr] at hv
        split at hv
        case isTrue => simp at hv
        case isFalse hn =>
          simp only [Bool.or_eq_true, Bool.not_eq_true', decide_eq_true_eq, not_or,
            Bool.not_eq_false] at hn
          obtain rfl : JsValue.string s = v := by simpa using hv
          exact ⟨hn.left, s, rfl, hn.right, text_trimmed hs⟩

theorem serializeVerification_get? (h : serializeVerification applies r v = some b)
    (hr : r.get "mtls_backend" = v) :
    (∀ k ≠ "mtls_backend", b.get? k = r.get? k) ∧
    ∀ w, b.get? "mtls_backend" = some w → (w = .undefined ∧ r.get? "mtls_backend" = some w) ∨
      ∃ ms, v = .object ms ∧ w = .object (keptMembers applies ms) ∧ keptMembers applies ms ≠ [] := by
  cases v <;> simp only [serializeVerification, reduceCtorEq] at h
  case undefined =>
    cases h
    exact ⟨fun _ _ => rfl, fun w hw => .inl ⟨(JsObject.get_of_get? hw).symm.trans hr, hw⟩⟩
  case object ms =>
    rw [← keptMembers] at h
    split at h <;> cases h
    case isTrue => exact ⟨fun k hk => by simp [hk], fun w hw => by simp at hw⟩
    case isFalse hne =>
      refine ⟨fun k hk => by simp [hk], fun w hw => .inr ⟨ms, rfl, ?_, hne⟩⟩
      simpa [eq_comm] using hw

-- What the backend TLS part hands on, told of the members that are there.
structure BackendTlsPlaced (args b : JsObject) : Prop where
  others  : ∀ k ∉ backendTlsStringFields, k ≠ "mtls_backend" → b.get? k = args.get? k
  texts   : ∀ k ∈ backendTlsStringFields, ∀ v, b.get? k = some v →
    backendTlsApplies args = true ∧ ∃ s, v = .string s ∧ s ≠ "" ∧ JsString.trim s = s
  backend : ∀ v, b.get? "mtls_backend" = some v →
    (v = .undefined ∧ args.get? "mtls_backend" = some v) ∨ ∃ ms, args.get "mtls_backend" = .object ms ∧
      v = .object (keptMembers (backendTlsApplies args) ms) ∧
      keptMembers (backendTlsApplies args) ms ≠ []

theorem serializeBackendTls_placed (h : serializeBackendTls args = some b) : BackendTlsPlaced args b := by
  simp only [serializeBackendTls, Option.bind_eq_bind, Option.bind_eq_some_iff] at h
  obtain ⟨r, hr, h⟩ := h
  obtain ⟨hout, hin⟩ := texts_get? hr
  have hm : r.get? "mtls_backend" = args.get? "mtls_backend" := hout _ (by decide)
  obtain ⟨hother, hback⟩ := serializeVerification_get? h <| by rw [JsObject.get, hm, JsObject.get]
  constructor
  case others => exact fun k hk hm => (hother k hm).trans <| hout k hk
  case texts =>
    intro k hk v hv
    refine hin k hk v <| (hother k ?_) ▸ hv
    rintro rfl
    exact absurd hk (by decide)
  case backend => exact hm ▸ hback

namespace BackendTlsPlaced

variable (h : BackendTlsPlaced args b)
include h

theorem get (hk : k ∉ backendTlsStringFields) (hm : k ≠ "mtls_backend") : b.get k = args.get k := by
  rw [JsObject.get, h.others k hk hm, JsObject.get]

theorem applies_eq : backendTlsApplies b = backendTlsApplies args := by
  simp only [backendTlsApplies, h.get (k := "mode") (by decide) (by decide),
    h.get (k := "security") (by decide) (by decide)]

theorem settled : TlsSettled b where
  texts k hk v hv := h.applies_eq ▸ h.texts k hk v hv
  backend v hv := by
    obtain ⟨rfl, _⟩ | ⟨ms, _, rfl, hne⟩ := h.backend v hv
    · exact .inl rfl
    · exact .inr ⟨_, rfl, hne, h.applies_eq ▸ keptMembers_idem⟩

end BackendTlsPlaced

-- No member comes from nowhere.
theorem serializeBackendTls_none (h : serializeBackendTls args = some b) (hk : args.get? k = none) :
    b.get? k = none := by
  have hp := serializeBackendTls_placed h
  have hu : args.get k = .undefined := by rw [JsObject.get, hk, Option.getD_none]
  cases hv : b.get? k
  case none => rfl
  case some v =>
    by_cases hf : k ∈ backendTlsStringFields
    case pos =>
      obtain ⟨_, s, rfl, _⟩ := hp.texts k hf v hv
      obtain ⟨s', hs, hb⟩ := (serializeBackendTls_inv h).texts k hf
      rw [hu, text] at hs
      cases hs
      simp [JsObject.get_of_get? hv, sentText] at hb
    case neg =>
      by_cases hm : k = "mtls_backend"
      case neg => rw [← hv, hp.others k hf hm, hk]
      case pos =>
        subst hm
        obtain ⟨_, ha⟩ | ⟨ms, ha, _⟩ := hp.backend v hv
        · simp [hk] at ha
        · simp [hu] at ha

theorem serializeBackendTls_eq_self (h : TlsSettled args) : serializeBackendTls args = some args := by
  have htext (k : String) (hk : k ∈ backendTlsStringFields) :
      serializeText (backendTlsApplies args) args args k = some args := by
    cases hv : args.get? k
    case none =>
      have hu : args.get k = .undefined := by rw [JsObject.get, hv, Option.getD_none]
      have hd : args.delete [k] = args := JsObject.delete_eq_self fun j hj => by
        rw [List.mem_singleton.mp hj, hv]
      simp [serializeText, hu, text, hd]
    case some v =>
      obtain ⟨happ, s, rfl, hne, ht⟩ := h.texts k hk v hv
      simp [serializeText, JsObject.get_of_get? hv, text, happ, ht, hne, Dict.set_eq_self hv]
  have hback : serializeVerification (backendTlsApplies args) args (args.get "mtls_backend") =
      some args := by
    cases hv : args.get? "mtls_backend"
    case none => rw [JsObject.get, hv, Option.getD_none, serializeVerification]
    case some v =>
      rw [JsObject.get_of_get? hv]
      obtain rfl | ⟨ms, rfl, hne, hk⟩ := h.backend v hv
      · rw [serializeVerification]
      · simp only [serializeVerification]
        rw [← keptMembers, hk, if_neg hne, Dict.set_eq_self hv]
  have hfold : backendTlsStringFields.foldlM (serializeText (backendTlsApplies args) args) args =
      some args := by
    simp only [backendTlsStringFields, List.foldlM_cons, List.foldlM_nil,
      htext "backend_ca_cert_id" (by decide), htext "backend_client_cert_id" (by decide),
      htext "backend_tls_server_name" (by decide), Option.bind_eq_bind, Option.bind_some,
      Option.pure_def]
  simp only [serializeBackendTls, hfold, Option.bind_eq_bind, Option.bind_some, hback]

end Settled

end BackendTls
