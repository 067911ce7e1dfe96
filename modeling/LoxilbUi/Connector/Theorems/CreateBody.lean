import LoxilbUi.Connector.CreateBody
import LoxilbUi.Connector.Theorems.LoadBalancer
import LoxilbUi.Types.Theorems.BackendTls

-- A rule that was built once is built to itself, and it holds nothing that its other members do not
-- ask for.

namespace LoadBalancer

open AIGateway BackendTls Capabilities

variable {args a b y z e : JsObject} {v w : JsValue} {ms : List (String × JsValue)} {k : String}
variable {es : List JsObject} {data body : ServiceConfiguration}

section Settled

def plainFields : List String :=
  aiOnlyFields ++ ["cb_enable"] ++ chwblTuningFields

def isFullproxy (args : JsObject) : Bool :=
  (args.get "mode").strictEq (.number 4)

-- The members behind backend TLS, before the negative numbers go.
def staged (b : JsObject) : JsObject :=
  if isFullproxy b then gateway b else b.delete plainFields

-- The members that an endpoint of the rule does not have.
def strippedFields (args : JsObject) : List String :=
  if isFullproxy args && resolveAITopology args = .pd then
    if (engineOf args).strictEq (.string "vllm") then [] else ["nixl_port"]
  else ["ep_role", "nixl_port"]

def builtArguments (b : JsObject) : JsObject :=
  dropInert <| cleanObject <| staged b

-- Arguments that were built.
structure Built (args : JsObject) : Prop where
  observed  : ∀ k ∈ readOnlyServiceArguments, args.get? k = none
  tls       : TlsSettled args
  fullproxy : isFullproxy args = true → Settled args
  plain     : isFullproxy args = false → ∀ k ∈ plainFields, args.get? k = none
  clean     : CleanObject args
  probes    : ∀ k ∈ probeFields, ∀ v, args.get? k = some v → (args.get "monitor").truthy = true
  frontend  : ∀ v, args.get? "mtls_frontend" = some v → isInertFrontend v = false

structure BuiltBody (body : ServiceConfiguration) : Prop where
  arguments      : Built body.serviceArguments
  endpoints      : ∃ es, body.endpoints = some es ∧ ∀ e ∈ es, CleanObject e ∧
    ∀ k ∈ strippedFields body.serviceArguments, e.get? k = none
  secondaryIPs   : ∀ l, body.secondaryIPs = some l → ∀ o ∈ l, CleanObject o
  allowedSources : ∀ l, body.allowedSources = some l → ∀ o ∈ l, CleanObject o

theorem stripped_eq {e : JsObject} :
    e.delete (strippedFields args) = if isFullproxy args then
      serializeEndpoint (engineOf args) (resolveAITopology args) e else stripEndpointAI e := by
  cases hm : isFullproxy args
  case false => simp only [strippedFields, hm]; rfl
  case true  =>
    cases ht : resolveAITopology args
    case pd =>
      cases he : (engineOf args).strictEq (.string "vllm")
      case false => simp [strippedFields, hm, ht, he, serializeEndpoint, deleteIf]
      case true  =>
        simp only [strippedFields, hm, ht, he, serializeEndpoint, deleteIf]
        exact JsObject.delete_eq_self (by simp)
    all_goals
      simp only [strippedFields, hm, ht]
      rfl

-- The body, once its backend TLS part is known.
theorem serializeLBCreateBody_eq (he : data.endpoints = some es)
    (hb : serializeBackendTls (data.serviceArguments.delete readOnlyServiceArguments) = some b) :
    serializeLBCreateBody data = some {
      serviceArguments := builtArguments b
      endpoints        := some <| es.map fun e => cleanObject <| e.delete <| strippedFields b
      secondaryIPs     := data.secondaryIPs.map (·.map cleanObject)
      allowedSources   := data.allowedSources.map (·.map cleanObject)
    } := by
  have hp := serializeBackendTls_placed hb
  have hget {k : String} (hk : k ∉ readOnlyServiceArguments) (hf : k ∉ backendTlsStringFields)
      (hm : k ≠ "mtls_backend") : data.serviceArguments.get k = b.get k := by
    rw [hp.get hf hm, JsObject.get_delete, if_neg hk]
  have hengine : resolveAIEngine (data.serviceArguments.get "kvEngineType") = engineOf b := by
    rw [hget (by decide) (by decide) (by decide), engineOf]
  have htopology : resolveAITopology data.serviceArguments = resolveAITopology b := by
    simp only [resolveAITopology, @hget "pd_disagg_mode" (by decide) (by decide) (by decide),
      @hget "kvExactMode" (by decide) (by decide) (by decide)]
  have hs : serializeAIConfiguration data = some { data with
      serviceArguments := staged b
      endpoints        := some <| es.map fun e => e.delete <| strippedFields b } := by
    simp only [serializeAIConfiguration, hb, he, hengine, htopology, Option.bind_eq_bind,
      Option.bind_some, stripped_eq]
    rw [← isFullproxy, staged]
    cases isFullproxy b <;> rfl
  simp [serializeLBCreateBody, hs, cleanConfiguration, builtArguments]

theorem map_eq_self {f : JsObject → JsObject} {l : List JsObject} (h : ∀ o ∈ l, f o = o) :
    l.map f = l :=
  (List.map_congr_left h).trans l.map_id

theorem staged_eq_self (h : Built args) : staged args = args := by
  unfold staged
  split
  case isTrue hm => exact serializeGateway_eq_self <| h.fullproxy hm
  case isFalse hm => exact JsObject.delete_eq_self <| h.plain <| by simpa using hm

theorem builtArguments_eq_self (h : Built args) : builtArguments args = args := by
  rw [builtArguments, staged_eq_self h, cleanObject_eq_self h.clean,
    dropInert_eq_self h.probes h.frontend]

theorem serializeLBCreateBody_eq_self (h : BuiltBody body) : serializeLBCreateBody body = some body := by
  obtain ⟨es, he, hes⟩ := h.endpoints
  have hb : serializeBackendTls (body.serviceArguments.delete readOnlyServiceArguments) =
      some body.serviceArguments := by
    rw [JsObject.delete_eq_self h.arguments.observed, serializeBackendTls_eq_self h.arguments.tls]
  have hclean (l : Option (List JsObject)) (h : ∀ k, l = some k → ∀ o ∈ k, CleanObject o) :
      l.map (·.map cleanObject) = l := by
    cases l
    case none   => rfl
    case some l => exact congrArg some <| map_eq_self fun o ho => cleanObject_eq_self <| h l rfl o ho
  have hend : es.map (fun e => cleanObject <| e.delete <| strippedFields body.serviceArguments) = es :=
    map_eq_self fun e he => by
      rw [JsObject.delete_eq_self (hes e he).right, cleanObject_eq_self (hes e he).left]
  rw [serializeLBCreateBody_eq he hb, builtArguments_eq_self h.arguments, hend,
    hclean _ h.secondaryIPs, hclean _ h.allowedSources, ← he]

end Settled

section Reach

-- A text and a flag that other members hang on are of their types.
structure TypedConditions (args : JsObject) : Prop where
  texts : ∀ k ∈ ["api_key_auth", "kvEngineType", "kvModelProfile"],
    args.get k = .undefined ∨ ∃ s, args.get k = .string s
  flags : ∀ k ∈ ["sse_mode", "pd_disagg_mode"],
    args.get k = .undefined ∨ ∃ c, args.get k = .bool c

-- The members that others hang on.
structure SameRule (y z : JsObject) : Prop where
  mode : isFullproxy z = isFullproxy y
  sel  : isChwblSelector (z.get "sel") = isChwblSelector (y.get "sel")
  gets : ∀ k ∈ ["api_key_auth", "kvEngineType", "kvModelProfile", "sse_mode", "pd_disagg_mode",
    "kvExactMode"], z.get k = y.get k

namespace SameRule

variable (h : SameRule y z)
include h

theorem topology : resolveAITopology z = resolveAITopology y := by
  simp only [resolveAITopology, h.gets "pd_disagg_mode" (by decide), h.gets "kvExactMode" (by decide)]

theorem engine : engineOf z = engineOf y := by
  rw [engineOf, h.gets "kvEngineType" (by decide), engineOf]

theorem exact : usesExact z = usesExact y := by
  rw [usesExact, h.topology, h.gets "kvExactMode" (by decide), usesExact]

theorem aiService : isAIService z = isAIService y := by
  have hm := h.mode
  simp only [isFullproxy] at hm
  simp only [isAIService, hm, h.gets "sse_mode" (by decide), h.gets "pd_disagg_mode" (by decide),
    h.gets "api_key_auth" (by decide)]

theorem hasProfile : HasProfile z ↔ HasProfile y := by
  simp only [HasProfile, exactModeOf, h.gets "kvExactMode" (by decide),
    h.gets "kvModelProfile" (by decide)]

theorem stripped : strippedFields z = strippedFields y := by
  simp only [strippedFields, h.mode, h.topology, h.engine]

end SameRule

section Cleaned

@[simp]
theorem truthy_cleaned : (cleanNegativeNumbers v).truthy = v.truthy := by
  cases v <;> rfl

@[simp]
theorem hasValue_cleaned : hasValue (cleanNegativeNumbers v) = hasValue v := by
  cases v <;> rfl

@[simp]
theorem isFcBlank_cleaned : isFcBlank (cleanNegativeNumbers v) = isFcBlank v := by
  cases v <;> rfl

theorem belongs_cleaned (h : Belongs y k v) (hs : SameRule y z) :
    Belongs z k (cleanNegativeNumbers v) := by
  constructor <;>
    simp only [truthy_cleaned, hasValue_cleaned, isFcBlank_cleaned, hs.topology, hs.engine, hs.exact,
      hs.aiService, hs.hasProfile, hs.sel, hs.gets "api_key_auth" (by decide)]
  case credential => exact h.credential
  case jwt        => exact h.jwt
  case hash       => exact h.hash
  case level      => exact h.level
  case ring       => exact h.ring
  case tuning     => exact h.tuning
  case bootstrap  => exact h.bootstrap
  case kv         => exact h.kv
  case rank       => exact h.rank
  case zmq        => exact h.zmq
  case admission  => exact h.admission
  case pdOnly     => exact h.pdOnly
  case profile    => exact h.profile

-- No member that is not negative is left out, and the flag is not changed.
theorem cleanMembers_eq_map (h : ∀ m ∈ ms, isNegative m.2 = false) :
    cleanMembers ms = ms.map fun m => (m.1, cleanNegativeNumbers m.2) := by
  induction ms
  case nil => rfl
  case cons m ms hi =>
    obtain ⟨j, u⟩ := m
    rw [cleanMembers, if_neg (by simpa using h (j, u) (by simp)), List.map_cons,
      hi fun m hm => h m <| List.mem_cons_of_mem _ hm]

theorem lookup_mapped {f : JsValue → JsValue} :
    (ms.map fun m => (m.1, f m.2)).lookup k = (ms.lookup k).map f := by
  induction ms
  case nil => rfl
  case cons m ms hi =>
    obtain ⟨j, u⟩ := m
    rw [List.map_cons, Dict.lookup_cons, Dict.lookup_cons, hi]
    split <;> rfl

theorem keptMembers_cleaned {applies : Bool} (h : ∀ m ∈ ms, isNegative m.2 = false)
    (hk : keptMembers applies ms = ms) : keptMembers applies (cleanMembers ms) = cleanMembers ms := by
  rw [cleanMembers_eq_map h]
  have hv : ((JsValue.object <| ms.map fun m => (m.1, cleanNegativeNumbers m.2)).get
      "verify_server_cert").truthy = ((JsValue.object ms).get "verify_server_cert").truthy := by
    simp only [JsValue.get, lookup_mapped]
    cases ms.lookup "verify_server_cert" <;> simp
  have hf : (ms.map fun m => (m.1, cleanNegativeNumbers m.2)).filter (·.1 ≠ "verify_server_cert") =
      (ms.filter (·.1 ≠ "verify_server_cert")).map fun m => (m.1, cleanNegativeNumbers m.2) := by
    rw [List.filter_map]
    rfl
  have hm := congrArg (List.map fun m => (m.1, cleanNegativeNumbers m.2)) hk
  simp only [keptMembers] at hm ⊢
  rw [hv, hf, ← hm]
  split
  case isTrue  => rw [List.map_append]; rfl
  case isFalse => rfl

end Cleaned

section Built

theorem staged_cut : Cut b (staged b) := by
  unfold staged
  split
  case isTrue  => exact serializeGateway_cut
  case isFalse => exact .delete

theorem staged_get (h : k ∉ gatewayFields) (hp : k ∉ plainFields) : (staged b).get k = b.get k := by
  unfold staged
  split
  case isTrue  => exact serializeGateway_frame h
  case isFalse => rw [JsObject.get_delete, if_neg hp]

theorem built_inv (h : (builtArguments b).get? k = some w) :
    ∃ v, (staged b).get? k = some v ∧ isNegative v = false ∧ w = cleanNegativeNumbers v :=
  cleanObject_inv <| dropInert_cut k w h

theorem built_none (h : b.get? k = none) : (builtArguments b).get? k = none :=
  dropInert_cut.none_of <| cleanObject_none <| staged_cut.none_of h

theorem built_get (h : k ∉ probeFields) (hf : k ≠ "mtls_frontend") :
    (builtArguments b).get k = (cleanObject <| staged b).get k :=
  dropInert_get (fun hk => absurd hk h) fun hk => absurd hk hf

theorem built_strictEq {n : JsNumber} (hn : n.lt 0 = false) (h : k ∉ probeFields)
    (hf : k ≠ "mtls_frontend") :
    ((builtArguments b).get k).strictEq (.number n) = ((staged b).get k).strictEq (.number n) := by
  rw [built_get h hf, cleanObject_strictEq hn]

theorem kvExactMode_settled (h : Settled y) (hv : y.get? "kvExactMode" = some v) :
    v = .number 1 ∨ v = .number 3 := by
  rw [← JsObject.get_of_get? hv]
  obtain ht | ⟨_, h⟩ := usesExact_kvExactMode ((h _ v hv).kv (by decide)).left
  · exact .inr <| singleRole_inv ht
  · exact .inl h

theorem nonNegative_of_text (h : v = .undefined ∨ ∃ s, v = .string s) : NonNegative v := by
  obtain rfl | ⟨s, rfl⟩ := h
  · exact ⟨rfl, .undefined⟩
  · exact ⟨rfl, .string s⟩

theorem nonNegative_of_flag (h : v = .undefined ∨ ∃ c, v = .bool c) : NonNegative v := by
  obtain rfl | ⟨c, rfl⟩ := h
  · exact ⟨rfl, .undefined⟩
  · exact ⟨rfl, .bool c⟩

theorem nonNegative_cut (h : Cut a b) (hn : NonNegative (a.get k)) : NonNegative (b.get k) := by
  obtain hk | hk := h.get k
  · exact hk ▸ hn
  · exact hk ▸ ⟨rfl, .undefined⟩

theorem nonNegative_kvExactMode : NonNegative ((staged b).get "kvExactMode") := by
  cases hv : (staged b).get? "kvExactMode"
  case none =>
    rw [JsObject.get, hv]
    exact ⟨rfl, .undefined⟩
  case some v =>
    rw [JsObject.get_of_get? hv]
    unfold staged at hv
    split at hv
    case isFalse =>
      rw [JsObject.get?_delete, if_pos (by decide)] at hv
      contradiction
    case isTrue =>
      obtain rfl | rfl := kvExactMode_settled gateway_settled hv
      · exact ⟨by decide, .number 1⟩
      · exact ⟨by decide, .number 3⟩

theorem isFullproxy_staged : isFullproxy (staged b) = isFullproxy b := by
  rw [isFullproxy, staged_get (by decide) (by decide), isFullproxy]

theorem sameRule_built (h : TypedConditions b) : SameRule (staged b) (builtArguments b) where
  mode := by
    rw [isFullproxy, built_strictEq (by decide) (by decide) (by decide), isFullproxy]
  sel  := by
    simp only [isChwblSelector, built_strictEq (k := "sel") (n := 8) (by decide) (by decide) (by decide),
      built_strictEq (k := "sel") (n := 10) (by decide) (by decide) (by decide)]
  gets k hk := by
    have hfields : ∀ k ∈ ["api_key_auth", "kvEngineType", "kvModelProfile", "sse_mode",
      "pd_disagg_mode", "kvExactMode"], k ∉ probeFields ∧ k ≠ "mtls_frontend" := by decide
    rw [built_get (hfields k hk).left (hfields k hk).right, cleanObject_get]
    by_cases ht : k ∈ ["api_key_auth", "kvEngineType", "kvModelProfile"]
    case pos => exact nonNegative_cut staged_cut <| nonNegative_of_text <| h.texts k ht
    case neg =>
      by_cases hf : k ∈ ["sse_mode", "pd_disagg_mode"]
      case pos => exact nonNegative_cut staged_cut <| nonNegative_of_flag <| h.flags k hf
      case neg =>
        obtain rfl : k = "kvExactMode" := by
          simp only [List.mem_cons, List.not_mem_nil, or_false] at hk ht hf
          tauto
        exact nonNegative_kvExactMode

theorem strippedFields_staged : strippedFields (staged b) = strippedFields b := by
  have hm := @isFullproxy_staged b
  cases hb : isFullproxy b
  case false => simp [strippedFields, hm, hb]
  case true  =>
    have hs : staged b = gateway b := if_pos hb
    rw [hs] at hm ⊢
    simp only [strippedFields, hm, gateway_pd_iff, gateway_engine]

theorem tlsApplies_built : backendTlsApplies (builtArguments b) = backendTlsApplies b := by
  rw [backendTlsApplies, built_strictEq (by decide) (by decide) (by decide),
    built_strictEq (by decide) (by decide) (by decide), staged_get (by decide) (by decide),
    staged_get (by decide) (by decide), backendTlsApplies]

theorem tlsSettled_built (h : TlsSettled b)
    (hn : ∀ ms, b.get "mtls_backend" = .object ms → ∀ m ∈ ms, isNegative m.2 = false) :
    TlsSettled (builtArguments b) where
  texts k hk w hw := by
    obtain ⟨v, hv, _, rfl⟩ := built_inv hw
    obtain ⟨ha, s, rfl, hs⟩ := h.texts k hk v <| staged_cut k v hv
    exact ⟨tlsApplies_built.trans ha, s, rfl, hs⟩
  backend w hw := by
    obtain ⟨v, hv, _, rfl⟩ := built_inv hw
    have hb := staged_cut _ v hv
    obtain rfl | ⟨ms, rfl, hne, hk⟩ := h.backend v hb
    · exact .inl rfl
    · have hn := hn ms <| JsObject.get_of_get? hb
      refine .inr ⟨cleanMembers ms, rfl, ?_, ?_⟩
      · rw [cleanMembers_eq_map hn]
        simpa using hne
      · rw [tlsApplies_built]
        exact keptMembers_cleaned hn hk

theorem settled_built (h : TypedConditions b) (hm : isFullproxy (builtArguments b) = true) :
    Settled (builtArguments b) := by
  have hs := sameRule_built h
  rw [hs.mode, isFullproxy_staged] at hm
  intro k w hw
  obtain ⟨v, hv, _, rfl⟩ := built_inv hw
  refine belongs_cleaned (y := staged b) ?_ hs
  unfold staged at hv ⊢
  rw [if_pos hm] at hv ⊢
  exact gateway_settled k v hv

theorem built_arguments (h : TypedConditions b) (ht : TlsSettled b)
    (hr : ∀ k ∈ readOnlyServiceArguments, b.get? k = none)
    (hn : ∀ ms, b.get "mtls_backend" = .object ms → ∀ m ∈ ms, isNegative m.2 = false) :
    Built (builtArguments b) where
  observed k hk := built_none <| hr k hk
  tls           := tlsSettled_built ht hn
  fullproxy     := settled_built h
  plain hm k hk := by
    rw [(sameRule_built h).mode, isFullproxy_staged] at hm
    refine dropInert_cut.none_of <| cleanObject_none ?_
    rw [staged, hm, if_neg nofun, JsObject.get?_delete, if_pos hk]
  clean         := dropInert_clean cleanObject_clean
  probes k hk v hv := by
    rw [built_get (by decide) (by decide)]
    exact (dropInert_inv hv).right.left hk
  frontend v hv := (dropInert_inv hv).right.right rfl

end Built

end Reach

section Body

-- A rule whose members are of their types, as far as others hang on them. The members of
-- `mtls_backend` are a flag and, on a rule that was read, retired texts.
structure WellTyped (data : ServiceConfiguration) : Prop
    extends TypedConditions data.serviceArguments where
  tls       : Typed data.serviceArguments
  retired   : ∀ ms, data.serviceArguments.get "mtls_backend" = .object ms →
    ∀ m ∈ ms, ∀ n, m.2 ≠ .number n
  endpoints : data.endpoints.isSome

-- Of its rule a body has no member that the rule has not.
structure BuiltFrom (data body : ServiceConfiguration) : Prop extends BuiltBody body where
  argumentsFrom : ∀ k, data.serviceArguments.get? k = none → body.serviceArguments.get? k = none
  endpointsFrom : ∀ es, body.endpoints = some es → ∀ e ∈ es, ∃ e' ∈ data.endpoints.getD [],
    ∀ k, e'.get? k = none → e.get? k = none
  backendFrom   : body.serviceArguments.get "mtls_backend" ≠ .undefined →
    backendTlsApplies body.serviceArguments = true ∨
    ∃ k ≠ "verify_server_cert", (data.serviceArguments.get "mtls_backend").has k = true

theorem has_of_mem {m : String × JsValue} (h : m ∈ ms) : (JsValue.object ms).has m.1 = true := by
  rw [JsValue.has, Option.isSome_iff_ne_none, ne_eq, List.lookup_eq_none_iff]
  exact fun hn => by simpa using hn m h

section Placed

variable (h : BackendTlsPlaced (args.delete readOnlyServiceArguments) b)
include h

theorem placed_get (hk : k ∉ readOnlyServiceArguments) (hf : k ∉ backendTlsStringFields)
    (hm : k ≠ "mtls_backend") : b.get k = args.get k := by
  rw [h.get hf hm, readOnly_get hk]

theorem placed_conditions (hc : TypedConditions args) : TypedConditions b where
  texts k hk := by
    have hk' : ∀ k ∈ ["api_key_auth", "kvEngineType", "kvModelProfile"],
      k ∉ readOnlyServiceArguments ∧ k ∉ backendTlsStringFields ∧ k ≠ "mtls_backend" := by decide
    rw [placed_get h (hk' k hk).left (hk' k hk).right.left (hk' k hk).right.right]
    exact hc.texts k hk
  flags k hk := by
    have hk' : ∀ k ∈ ["sse_mode", "pd_disagg_mode"],
      k ∉ readOnlyServiceArguments ∧ k ∉ backendTlsStringFields ∧ k ≠ "mtls_backend" := by decide
    rw [placed_get h (hk' k hk).left (hk' k hk).right.left (hk' k hk).right.right]
    exact hc.flags k hk

theorem placed_readOnly (hk : k ∈ readOnlyServiceArguments) : b.get? k = none := by
  have hk' : ∀ k ∈ readOnlyServiceArguments, k ∉ backendTlsStringFields ∧ k ≠ "mtls_backend" := by
    decide
  rw [h.others k (hk' k hk).left (hk' k hk).right, JsObject.get?_delete, if_pos hk]

-- What is left of the retired members, and what stands there of them.
theorem placed_backend (hv : b.get? "mtls_backend" = some v) : v = .undefined ∨
    ∃ ms, args.get "mtls_backend" = .object ms ∧ v = .object (keptMembers (backendTlsApplies b) ms) ∧
      keptMembers (backendTlsApplies b) ms ≠ [] := by
  obtain ⟨rfl, _⟩ | ⟨ms, ha, hms⟩ := h.backend v hv
  · exact .inl rfl
  · rw [readOnly_get (by decide)] at ha
    exact .inr ⟨ms, ha, h.applies_eq ▸ hms⟩

end Placed

section Placed

variable (h : BackendTlsPlaced (data.serviceArguments.delete readOnlyServiceArguments) b)
variable (hw : WellTyped data)
include h hw

theorem placed_nonNegative (hms : b.get "mtls_backend" = .object ms) :
    ∀ m ∈ ms, isNegative m.2 = false := by
  have hv : b.get? "mtls_backend" = some (.object ms) :=
    hms ▸ JsValue.get?_of_get (by simp [hms])
  obtain hu | ⟨ms', ha, hk, _⟩ := placed_backend h hv
  · contradiction
  · cases hk
    intro m hm
    obtain hm | rfl := mem_keptMembers hm
    · have hm := hw.retired ms' ha m hm
      cases hv : m.2 <;> simp_all [isNegative]
    · rfl

omit hw in
theorem placed_from (hv : (builtArguments b).get "mtls_backend" ≠ .undefined) :
    backendTlsApplies (builtArguments b) = true ∨
    ∃ k ≠ "verify_server_cert", (data.serviceArguments.get "mtls_backend").has k = true := by
  rw [tlsApplies_built]
  obtain ⟨v, hs, _, hw⟩ := built_inv <| JsValue.get?_of_get hv
  obtain rfl | ⟨ms, ha, _, hne⟩ := placed_backend h <| staged_cut _ v hs
  · exact absurd hw hv
  · cases happ : backendTlsApplies b
    case true  => exact .inl rfl
    case false =>
      rw [happ] at hne
      obtain ⟨m, hm⟩ := List.exists_mem_of_ne_nil _ hne
      obtain ⟨hm, hk⟩ := List.mem_filter.mp hm
      exact .inr ⟨m.1, by simpa using hk, ha ▸ has_of_mem hm⟩

end Placed

theorem cleaned_items {items : Option (List JsObject)} {l : List JsObject}
    (h : items.map (·.map cleanObject) = some l) : ∀ o ∈ l, CleanObject o := by
  obtain ⟨items, _, rfl⟩ := Option.map_eq_some_iff.mp h
  intro o ho
  obtain ⟨o, _, rfl⟩ := List.mem_map.mp ho
  exact cleanObject_clean

theorem serializeLBCreateBody_built (h : WellTyped data) :
    ∃ body, serializeLBCreateBody data = some body ∧ BuiltFrom data body := by
  obtain ⟨b, hb, _⟩ := serializeBackendTls_spec <| typed_readOnly h.tls
  obtain ⟨es, he⟩ := Option.isSome_iff_exists.mp h.endpoints
  have hp := serializeBackendTls_placed hb
  have hc := placed_conditions hp h.toTypedConditions
  refine ⟨_, serializeLBCreateBody_eq he hb, ?_⟩
  constructor
  case toBuiltBody =>
    constructor
    case arguments =>
      exact built_arguments hc hp.settled (fun k hk => placed_readOnly hp hk)
        fun ms => placed_nonNegative hp h
    case endpoints =>
      refine ⟨_, rfl, fun e he => ?_⟩
      obtain ⟨e, _, rfl⟩ := List.mem_map.mp he
      refine ⟨cleanObject_clean, fun k hk => cleanObject_none ?_⟩
      rw [(sameRule_built hc).stripped, strippedFields_staged] at hk
      rw [JsObject.get?_delete, if_pos hk]
    case secondaryIPs   => exact fun l => cleaned_items
    case allowedSources => exact fun l => cleaned_items
  case argumentsFrom =>
    exact fun k hk => built_none <| serializeBackendTls_none hb <| by simp [hk]
  case endpointsFrom =>
    rintro _ ⟨⟩ e hm
    obtain ⟨e', hm, rfl⟩ := List.mem_map.mp hm
    refine ⟨e', by rwa [he], fun k hk => cleanObject_none ?_⟩
    simp [hk]
  case backendFrom => exact placed_from hp

end Body

section Flavor

variable {flavor : InstanceFlavor} {fields : List String} {object : JsObject}

theorem strip_get : (stripGatewayOnlyFields flavor fields object).get k = object.get k ∨
    (stripGatewayOnlyFields flavor fields object).get k = .undefined := by
  cases flavor
  case inferenceGateway => exact .inl rfl
  case loxilb           => exact Cut.delete.get k

theorem projected_get (data : ServiceConfiguration) (flavor : InstanceFlavor) (k : String) :
    (projectOntoFlavor data flavor).serviceArguments.get k = data.serviceArguments.get k ∨
      (projectOntoFlavor data flavor).serviceArguments.get k = .undefined := by
  cases flavor
  case inferenceGateway => exact .inl rfl
  case loxilb           => exact strip_get

theorem wellTyped_projected (h : WellTyped data) (flavor : InstanceFlavor) :
    WellTyped (projectOntoFlavor data flavor) := by
  have hkeep (P : JsValue → Prop) (k : String) (hu : P .undefined) (h : P (data.serviceArguments.get k)) :
      P ((projectOntoFlavor data flavor).serviceArguments.get k) := by
    obtain hk | hk := projected_get data flavor k
    · exact hk ▸ h
    · exact hk ▸ hu
  have htext := hkeep fun v => v = .undefined ∨ ∃ s, v = .string s
  have hflag := hkeep fun v => v = .undefined ∨ ∃ c, v = .bool c
  have hobject := hkeep fun v => v = .undefined ∨ ∃ ms, v = .object ms
  constructor
  case toTypedConditions =>
    exact ⟨fun k hk => htext k (.inl rfl) <| h.texts k hk, fun k hk => hflag k (.inl rfl) <| h.flags k hk⟩
  case tls =>
    exact ⟨fun k hk => htext k (.inl rfl) <| h.tls.texts k hk, hobject _ (.inl rfl) h.tls.backend⟩
  case retired =>
    exact hkeep (fun v => ∀ ms, v = .object ms → ∀ m ∈ ms, ∀ n, m.2 ≠ .number n) _ nofun h.retired
  case endpoints =>
    cases flavor
    case inferenceGateway => exact h.endpoints
    case loxilb           => simpa [projectOntoFlavor] using h.endpoints

-- What only the gateway declares is not on an upstream rule.
structure Upstream (body : ServiceConfiguration) : Prop where
  arguments : ∀ k ∈ gatewayOnlyArguments, body.serviceArguments.get? k = none
  endpoints : ∀ es, body.endpoints = some es → ∀ e ∈ es, ∀ k ∈ gatewayOnlyEndpointFields, e.get? k = none

theorem upstream_built (h : BuiltFrom (projectOntoFlavor data .loxilb) body) : Upstream body where
  arguments k hk := by
    refine h.argumentsFrom k ?_
    simp only [projectOntoFlavor, stripGatewayOnlyFields, JsObject.get?_delete, if_pos hk]
  endpoints es he e hm k hk := by
    obtain ⟨e', hm', hf⟩ := h.endpointsFrom es he e hm
    refine hf k ?_
    cases hd : data.endpoints
    case none => simp [projectOntoFlavor, hd] at hm'
    case some es =>
      simp only [projectOntoFlavor, hd, Option.map_some, Option.getD_some] at hm'
      obtain ⟨e, _, rfl⟩ := List.mem_map.mp hm'
      rw [stripGatewayOnlyFields, JsObject.get?_delete, if_pos hk]

theorem projectOntoFlavor_eq_self (h : flavor = .loxilb → Upstream body) :
    projectOntoFlavor body flavor = body := by
  cases flavor
  case inferenceGateway => rfl
  case loxilb =>
    have h := h rfl
    have ha : body.serviceArguments.delete gatewayOnlyArguments = body.serviceArguments :=
      JsObject.delete_eq_self h.arguments
    have he : body.endpoints.map (·.map <| stripGatewayOnlyFields .loxilb gatewayOnlyEndpointFields) =
        body.endpoints := by
      cases hb : body.endpoints
      case none    => rfl
      case some es =>
        exact congrArg some <| map_eq_self fun e hm => JsObject.delete_eq_self <| h.endpoints es hb e hm
    simp only [projectOntoFlavor, he]
    rw [stripGatewayOnlyFields, ha]

-- A rule is built, to a body that is built to itself.
theorem buildLBCreateBody_built (h : WellTyped data) (flavor : InstanceFlavor) :
    ∃ body, buildLBCreateBody data flavor = some body ∧ buildLBCreateBody body flavor = some body ∧
      BuiltFrom (projectOntoFlavor data flavor) body ∧ (flavor = .loxilb → Upstream body) := by
  obtain ⟨body, hb, hfrom⟩ := serializeLBCreateBody_built <| wellTyped_projected h flavor
  have hup : flavor = .loxilb → Upstream body := by
    rintro rfl
    exact upstream_built hfrom
  refine ⟨body, hb, ?_, hfrom, hup⟩
  rw [buildLBCreateBody, projectOntoFlavor_eq_self hup]
  exact serializeLBCreateBody_eq_self hfrom.toBuiltBody

end Flavor

section Contract

-- What the arguments of a body hold, and on which other members of theirs.
structure InContract (args : JsObject) : Prop where
  observed  : ∀ k ∈ readOnlyServiceArguments, args.get? k = none
  jwt       : ∀ v, args.get? "jwt_auth_profile" = some v →
    requiresJwtProfile (args.get "api_key_auth") = true
  ring      : ∀ k ∈ chwblTuningFields, ∀ v, args.get? k = some v → args.get "mode" = .number 4 ∧
    (args.get "sel" = .number 8 ∨ args.get "sel" = .number 10)
  admission : ∀ k ∈ admissionFields, ∀ v, args.get? k = some v → args.get "mode" = .number 4 ∧
    ((args.get "sse_mode").truthy = true ∨ (args.get "pd_disagg_mode").truthy = true ∨
      (args.get "api_key_auth").truthy = true ∧ args.get "api_key_auth" ≠ .string "disabled")
  tuning    : ∀ k ∈ pdTuningFields ++ ["pdBootstrapPort"], ∀ v, args.get? k = some v →
    (args.get "pd_disagg_mode").truthy = true
  profile   : ∀ k ∈ profileFields, ∀ v, args.get? k = some v →
    ∃ n, args.get "kvExactMode" = .number n ∧ n ≠ 0
  tls       : ∀ k ∈ backendTlsStringFields, ∀ v, args.get? k = some v →
    args.get "mode" = .number 4 ∧ args.get "security" = .number 2
  verify    : (args.get "mtls_backend").get "verify_server_cert" ≠ .undefined →
    args.get "mode" = .number 4 ∧ args.get "security" = .number 2

theorem tlsApplies_inv (h : backendTlsApplies args = true) :
    args.get "mode" = .number 4 ∧ args.get "security" = .number 2 := by
  obtain ⟨hm, hs⟩ := Bool.and_eq_true_iff.mp h
  exact ⟨JsValue.strictEq_inv hm, JsValue.strictEq_inv hs⟩

section Built

variable (h : Built args)
include h

-- A member that is for fullproxy rules alone.
theorem built_belongs (hk : k ∈ plainFields) (hv : args.get? k = some v) :
    isFullproxy args = true ∧ args.get "mode" = .number 4 ∧ Belongs args k v := by
  cases hm : isFullproxy args
  case false => simp [h.plain hm k hk] at hv
  case true  => exact ⟨rfl, JsValue.strictEq_inv hm, h.fullproxy hm k v hv⟩

theorem inContract_built : InContract args := by
  have hring : chwblTuningFields ⊆ plainFields := by decide
  have hadmission : admissionFields ⊆ plainFields := by decide
  have htuning : pdTuningFields ++ ["pdBootstrapPort"] ⊆ plainFields := by decide
  have hprofile : profileFields ⊆ plainFields := by decide
  constructor
  case observed => exact h.observed
  case jwt => exact fun v hv => ((built_belongs h (by decide) hv).right.right.jwt rfl).right
  case ring =>
    intro k hk v hv
    obtain ⟨_, hm, hb⟩ := built_belongs h (hring hk) hv
    refine ⟨hm, ?_⟩
    have hs := (hb.ring hk).right
    simp only [isChwblSelector, Bool.or_eq_true] at hs
    exact hs.imp JsValue.strictEq_inv JsValue.strictEq_inv
  case admission =>
    intro k hk v hv
    obtain ⟨hf, hm, hb⟩ := built_belongs h (hadmission hk) hv
    refine ⟨hm, ?_⟩
    have hs := (hb.admission hk).left
    rw [isFullproxy] at hf
    simp only [isAIService, hf, Bool.not_true, Bool.false_eq_true, if_false, Bool.or_eq_true,
      Bool.and_eq_true, Bool.not_eq_true', or_assoc] at hs
    refine hs.imp_right <| Or.imp_right <| And.imp_right fun hd he => ?_
    rw [he] at hd
    contradiction
  case tuning =>
    intro k hk v hv
    obtain ⟨_, _, hb⟩ := built_belongs h (htuning hk) hv
    rw [← topology_eq_pd]
    obtain hk | hk := List.mem_append.mp hk
    · exact hb.tuning <| List.mem_cons_of_mem _ hk
    · exact (hb.bootstrap <| List.mem_singleton.mp hk).left
  case profile =>
    intro k hk v hv
    obtain ⟨hf, _, hb⟩ := built_belongs h (hprofile hk) hv
    obtain ⟨_, hx, _⟩ := hb.profile hk
    cases hx' : args.get? "kvExactMode"
    case none =>
      rw [exactModeOf, JsObject.get, hx'] at hx
      contradiction
    case some v =>
      rw [JsObject.get_of_get? hx']
      obtain rfl | rfl := kvExactMode_settled (h.fullproxy hf) hx'
      · exact ⟨1, rfl, by decide⟩
      · exact ⟨3, rfl, by decide⟩
  case tls => exact fun k hk v hv => tlsApplies_inv (h.tls.texts k hk v hv).left
  case verify =>
    intro hv
    refine tlsApplies_inv ?_
    by_contra hn
    rw [Bool.not_eq_true] at hn
    refine hv ?_
    cases hb : args.get? "mtls_backend"
    case none => rw [JsObject.get, hb]; rfl
    case some v =>
      rw [JsObject.get_of_get? hb]
      obtain rfl | ⟨ms, rfl, _, hk⟩ := h.tls.backend v hb
      · rfl
      · rw [hn] at hk
        rw [← hk]
        exact retired_get

end Built

section Value

variable {o : JsObject} {items : Option (List JsObject)} {m : String × JsValue}

theorem nonNegative_object (h : CleanObject o) : NonNegative (.object o.entries) :=
  ⟨rfl, .object _ (fun m hm => (h m hm).left) fun m hm => (h m hm).right⟩

theorem nonNegative_listMember (h : ∀ l, items = some l → ∀ o ∈ l, CleanObject o)
    (hm : m ∈ listMember k items) : NonNegative m.2 := by
  cases items
  case none => simp [listMember] at hm
  case some l =>
    obtain rfl := List.mem_singleton.mp hm
    refine ⟨rfl, .array _ fun v hv => ?_⟩
    obtain ⟨o, ho, rfl⟩ := List.mem_map.mp hv
    exact (nonNegative_object <| h l rfl o ho).right

theorem clean_toValue {entry : LoadbalanceEntry} (h : BuiltBody entry.toServiceConfiguration)
    (ho : CleanObject entry.others) : Clean entry.toValue := by
  obtain ⟨es, he, hes⟩ := h.endpoints
  have hall : ∀ m ∈ ("serviceArguments", JsValue.object entry.serviceArguments.entries) ::
      listMember "endpoints" entry.endpoints ++ listMember "secondaryIPs" entry.secondaryIPs ++
      listMember "allowedSources" entry.allowedSources ++ entry.others.entries, NonNegative m.2 := by
    intro m hm
    simp only [List.mem_append, List.mem_cons, or_assoc] at hm
    obtain rfl | hm | hm | hm | hm := hm
    · exact nonNegative_object h.arguments.clean
    · refine nonNegative_listMember (fun l hl e hm => ?_) hm
      obtain rfl := Option.some.inj <| he.symm.trans hl
      exact (hes e hm).left
    · exact nonNegative_listMember h.secondaryIPs hm
    · exact nonNegative_listMember h.allowedSources hm
    · exact ho m hm
  exact .object _ (fun m hm => (hall m hm).left) fun m hm => (hall m hm).right

end Value

variable {entry : LoadbalanceEntry} {flavor : InstanceFlavor}

-- What the body of a rule holds. Off the re-encrypting leg `mtls_backend` stands there for the sake of
-- retired members alone.
structure EntryInContract (entry body : LoadbalanceEntry) (flavor : InstanceFlavor) : Prop
    extends InContract body.serviceArguments where
  clean   : Clean body.toValue
  backend : body.serviceArguments.get "mtls_backend" ≠ .undefined →
    (body.serviceArguments.get "mode" = .number 4 ∧ body.serviceArguments.get "security" = .number 2) ∨
    ∃ k ≠ "verify_server_cert", (entry.serviceArguments.get "mtls_backend").has k = true
  loxilb  : flavor = .loxilb → Upstream body.toServiceConfiguration ∧
    ∀ k ∈ gatewayOnlyEntryFields, body.others.get? k = none

theorem strip_eq_self {fields : List String} {object : JsObject}
    (h : flavor = .loxilb → ∀ k ∈ fields, object.get? k = none) :
    stripGatewayOnlyFields flavor fields object = object := by
  cases flavor
  case inferenceGateway => rfl
  case loxilb           => exact JsObject.delete_eq_self <| h rfl

-- A rule whose members are of their types is built to a body that is built to itself and stays inside
-- its contract.
theorem buildEntry_settled (h : WellTyped entry.toServiceConfiguration) (flavor : InstanceFlavor) :
    ∃ body, buildEntry entry flavor = some body ∧ buildEntry body flavor = some body ∧
      EntryInContract entry body flavor := by
  obtain ⟨body, hb, hself, hfrom, hup⟩ := buildLBCreateBody_built h flavor
  have hothers (hf : flavor = .loxilb) : ∀ k ∈ gatewayOnlyEntryFields,
      (cleanObject <| stripGatewayOnlyFields flavor gatewayOnlyEntryFields entry.others).get? k = none := by
    subst hf
    exact fun k hk => cleanObject_none <| by rw [stripGatewayOnlyFields, JsObject.get?_delete, if_pos hk]
  refine ⟨_, by rw [buildEntry, hb]; rfl, ?_, ?_⟩
  case refine_1 =>
    rw [buildEntry]
    simp only [hself, Option.bind_eq_bind, Option.bind_some, Option.pure_def, strip_eq_self hothers,
      cleanObject_eq_self cleanObject_clean]
  case refine_2 =>
    constructor
    case toInContract => exact inContract_built hfrom.arguments
    case clean        => exact clean_toValue hfrom.toBuiltBody cleanObject_clean
    case backend =>
      intro hv
      refine (hfrom.backendFrom hv).imp tlsApplies_inv ?_
      rintro ⟨k, hk, hhas⟩
      obtain hp | hp := projected_get entry.toServiceConfiguration flavor "mtls_backend"
      · exact ⟨k, hk, hp ▸ hhas⟩
      · rw [hp] at hhas
        contradiction
    case loxilb => exact fun hf => ⟨hup hf, hothers hf⟩

-- A rule drafted over one that was read: its state and counters, a blank certificate, negative limits.
def draftedEntry : LoadbalanceEntry where
  serviceArguments := {
    entries := [
      ("mode", .number 4),
      ("security", .number 2),
      ("sel", .number 8),
      ("monitor", .bool false),
      ("probetype", .string "tcp"),
      ("api_key_auth", .string "jwt"),
      ("jwt_auth_profile", .string "staff"),
      ("chwbl_replication", .number 64),
      ("pd_disagg_mode", .bool true),
      ("kvEngineType", .string "sglang"),
      ("kvExactMode", .number 1),
      ("kvModelProfile", .string "llama"),
      ("connectionLimit", .number (-1)),
      ("fc_mode", .string "observe"),
      ("fc_effective", .object []),
      ("backend_ca_cert_id", .string " "),
      ("mtls_backend", .object [("verify_server_cert", .bool true)])
    ]
    nodup := by decide
  }
  endpoints      := some [
    ⟨[("endpointIP", .string "10.1.0.1"), ("ep_role", .number 1), ("weight", .number (-1))], by decide⟩
  ]
  secondaryIPs   := none
  allowedSources := some []
  others         := ⟨[("hw_pkts", .number 12)], by decide⟩
  apart          := by decide

theorem draftedEntry_typed : WellTyped draftedEntry.toServiceConfiguration where
  texts     := by
    simp only [List.forall_mem_cons]
    exact ⟨.inr ⟨_, rfl⟩, .inr ⟨_, rfl⟩, .inr ⟨_, rfl⟩, by simp⟩
  flags     := by
    simp only [List.forall_mem_cons]
    exact ⟨.inl rfl, .inr ⟨_, rfl⟩, by simp⟩
  tls       := {
    texts   := by
      simp only [backendTlsStringFields, List.forall_mem_cons]
      exact ⟨.inr ⟨_, rfl⟩, .inl rfl, .inl rfl, by simp⟩
    backend := .inr ⟨_, rfl⟩ }
  retired   := by
    rintro _ ⟨⟩ m hm n
    obtain rfl := List.mem_singleton.mp hm
    intro h
    cases h
  endpoints := rfl

theorem buildEntry_settled_draftedEntry :
    (∃ body, buildEntry draftedEntry .loxilb = some body ∧ buildEntry body .loxilb = some body ∧
      EntryInContract draftedEntry body .loxilb) ∧
    ∃ body, buildEntry draftedEntry .inferenceGateway = some body ∧
      buildEntry body .inferenceGateway = some body ∧
      EntryInContract draftedEntry body .inferenceGateway :=
  ⟨buildEntry_settled draftedEntry_typed .loxilb, buildEntry_settled draftedEntry_typed .inferenceGateway⟩

end Contract

end LoadBalancer
