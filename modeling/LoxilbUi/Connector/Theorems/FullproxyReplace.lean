import LoxilbUi.Connector.Theorems.LoadBalancer
import LoxilbUi.Library.Forall2
import LoxilbUi.Types.LbFullproxyReplace
import LoxilbUi.Types.Theorems.BackendTls

-- What a fullproxy replace that changes nothing carries of the rule that was read.

namespace LoadBalancer

open AIGateway BackendTls LBFullproxyReplace
open LBRuleApplied (isZero isZero_get)

variable {v w : JsValue} {ms : List (String × JsValue)} {k : String}
variable {object args a b : JsObject} {fresh : ServiceConfiguration}

section Replace

-- The operator changes nothing.
def noEdit : FullproxyEdit where
  argumentsPatch := .empty
  endpoints      := none
  secondaryIPs   := none
  allowedSources := none

def replaceBody (fresh : ServiceConfiguration) : Option ServiceConfiguration :=
  buildLBCreateBody (buildFullproxyReplaceBody fresh noEdit) .inferenceGateway

-- What is not the request's to send, and what the gateway keeps when it is left out.
def notSent : List String :=
  ["managed", "id"] ++ readOnlyServiceArguments ++ admissionFields

-- The members that do not travel as they are, by the other members of the rule.
inductive Altered (args : JsObject) : String → Prop
  | leftOut (k : String) (h : LeftOut args k) : Altered args k
  | probe (k : String) (hk : k ∈ probeFields) (h : args.get "monitor" ≠ .bool true) : Altered args k
  | frontend (h : isInertFrontend (args.get "mtls_frontend") = true) : Altered args "mtls_frontend"
  | tls (k : String) (hk : k ∈ backendTlsStringFields) (h : backendTlsApplies args = false) :
    Altered args k
  | padded (k s : String) (hk : k ∈ backendTlsStringFields) (hs : args.get k = .string s)
    (h : JsString.trim s ≠ s) : Altered args k

-- A rule as JSON gives it, its members of their types.
structure Read (fresh : ServiceConfiguration) : Prop where
  typed : Typed fresh.serviceArguments
  noNaN : ∀ k, fresh.serviceArguments.get k ≠ .number .nan

structure EndpointCarried (args e f : JsObject) : Prop where
  observed : ∀ k ∈ ["state", "counter"], f.get k = .undefined
  others   : ∀ k ∉ ["state", "counter", "ep_role", "nixl_port"], NonNegative (e.get k) →
    f.get k = e.get k
  role     : isZero (e.get "ep_role") = false → NonNegative (e.get "ep_role") →
    f.get "ep_role" = e.get "ep_role"
  nixlPort : isZero (e.get "nixl_port") = false → NonNegative (e.get "nixl_port") →
    (engineOf args).strictEq (.string "vllm") = true → f.get "nixl_port" = e.get "nixl_port"

def Unchanged (e f : JsObject) : Prop :=
  ∀ k, NonNegative (e.get k) → f.get k = e.get k

structure ReplaceCarries (fresh body : ServiceConfiguration) : Prop where
  arguments      : ∀ k ∉ notSent, k ≠ "mtls_backend" →
    isZero (fresh.serviceArguments.get k) = false → NonNegative (fresh.serviceArguments.get k) →
    ¬Altered fresh.serviceArguments k → body.serviceArguments.get k = fresh.serviceArguments.get k
  backend        : Clean (fresh.serviceArguments.get "mtls_backend") → ∀ m,
    isZero ((fresh.serviceArguments.get "mtls_backend").get m) = false →
    (m = "verify_server_cert" → backendTlsApplies fresh.serviceArguments = true ∧
      (fresh.serviceArguments.get "mtls_backend").get m = .bool true) →
    (body.serviceArguments.get "mtls_backend").get m =
      (fresh.serviceArguments.get "mtls_backend").get m
  endpoints      : ∃ es, body.endpoints = some es ∧
    List.Forall₂ (EndpointCarried fresh.serviceArguments) (fresh.endpoints.getD []) es
  secondaryIPs   : ∃ l, body.secondaryIPs = some l ∧
    List.Forall₂ Unchanged (fresh.secondaryIPs.getD []) l
  allowedSources : ∃ l, body.allowedSources = some l ∧
    List.Forall₂ Unchanged (fresh.allowedSources.getD []) l

-- The members that the backend TLS part starts from.
def sentArguments (args : JsObject) : JsObject :=
  (args.delete <| ["managed", "id"] ++ readOnlyServiceArguments).delete readOnlyServiceArguments

theorem sentArguments_get (h : k ∉ ["managed", "id"] ++ readOnlyServiceArguments) :
    (sentArguments args).get k = args.get k := by
  have hr : k ∉ readOnlyServiceArguments := fun hr => h <| List.mem_append_right _ hr
  rw [sentArguments, JsObject.get_delete, if_neg hr, JsObject.get_delete, if_neg h]

def sentEndpoint (args e : JsObject) : JsObject :=
  cleanObject <| serializeEndpoint (engineOf args) (resolveAITopology args) <|
    e.delete ["state", "counter"]

-- The arguments of the body, once their backend TLS part is known.
def sentArgumentsOf (args b : JsObject) : JsObject :=
  dropInert <| cleanObject <| serializeGateway (engineOf args) (resolveAITopology args) b

theorem replaceBody_eq (h : serializeBackendTls (sentArguments fresh.serviceArguments) = some b)
    (hm : b.get "mode" = .number 4) :
    replaceBody fresh = some {
      serviceArguments := sentArgumentsOf fresh.serviceArguments b
      endpoints        := some <| (fresh.endpoints.getD []).map <| sentEndpoint fresh.serviceArguments
      secondaryIPs     := some <| (fresh.secondaryIPs.getD []).map cleanObject
      allowedSources   := some <| (fresh.allowedSources.getD []).map cleanObject
    } := by
  generalize hargs : fresh.serviceArguments = args at *
  have hbody : (buildFullproxyReplaceBody fresh noEdit).serviceArguments =
      args.delete (["managed", "id"] ++ readOnlyServiceArguments) := hargs ▸ rfl
  have hmode : (!(b.get "mode").strictEq (.number 4)) = false := by
    rw [hm]
    rfl
  have hget {k : String} (hk : k ∉ ["managed", "id"] ++ readOnlyServiceArguments) :
      (args.delete (["managed", "id"] ++ readOnlyServiceArguments)).get k = args.get k := by
    rw [JsObject.get_delete, if_neg hk]
  have he := @hget "kvEngineType" (by decide)
  have ht : resolveAITopology (args.delete (["managed", "id"] ++ readOnlyServiceArguments)) =
      resolveAITopology args := by
    simp only [resolveAITopology, @hget "pd_disagg_mode" (by decide), @hget "kvExactMode" (by decide)]
  have hs : serializeAIConfiguration (buildFullproxyReplaceBody fresh noEdit) = some {
      serviceArguments := serializeGateway (engineOf args) (resolveAITopology args) b
      endpoints        := some <| ((fresh.endpoints.getD []).map fun e =>
        e.delete ["state", "counter"]).map <| serializeEndpoint (engineOf args) (resolveAITopology args)
      secondaryIPs     := some <| fresh.secondaryIPs.getD []
      allowedSources   := some <| fresh.allowedSources.getD []
    } := by
    rw [sentArguments] at h
    simp only [serializeAIConfiguration, hbody, h, he, ht, Option.bind_eq_bind, Option.bind_some, hmode]
    rfl
  simp [replaceBody, buildLBCreateBody, projectOntoFlavor, serializeLBCreateBody, hs, cleanConfiguration,
    sentArgumentsOf, sentEndpoint]

section Endpoint

variable {e : JsObject}

theorem serializeEndpoint_get {engine : JsValue} {topology : AITopology}
    (hr : k = "ep_role" → topology = .pd)
    (hp : k = "nixl_port" → topology = .pd ∧ engine.strictEq (.string "vllm") = true) :
    (serializeEndpoint engine topology e).get k = e.get k := by
  have strip (ht : topology ≠ .pd) : (stripEndpointAI e).get k = e.get k := by
    rw [stripEndpointAI, JsObject.get_delete, if_neg]
    simp only [List.mem_cons, List.not_mem_nil, or_false, not_or]
    exact ⟨fun hk => ht (hr hk), fun hk => ht (hp hk).left⟩
  cases topology
  case plain      => exact strip nofun
  case singleRole => exact strip nofun
  case pd         =>
    refine get_deleteIf_of fun hk => ?_
    rw [(hp <| List.mem_singleton.mp hk).right]
    rfl

theorem sentEndpoint_get (hk : k ∉ ["state", "counter"]) (hn : NonNegative (e.get k))
    (hr : k = "ep_role" → resolveAITopology args = .pd)
    (hp : k = "nixl_port" → resolveAITopology args = .pd ∧
      (engineOf args).strictEq (.string "vllm") = true) :
    (sentEndpoint args e).get k = e.get k := by
  have hd : (e.delete ["state", "counter"]).get k = e.get k := by
    rw [JsObject.get_delete, if_neg hk]
  have hs := (serializeEndpoint_get (e := e.delete ["state", "counter"]) hr hp).trans hd
  rw [sentEndpoint, cleanObject_get (hs ▸ hn), hs]

theorem nonNegative_undefined : NonNegative .undefined :=
  ⟨rfl, .undefined⟩

theorem sentEndpoint_carried {es : List JsObject} (hv : ValidRule args es) (he : e ∈ es) :
    EndpointCarried args e (sentEndpoint args e) := by
  have hpd {field : String} (hf : field ∈ ["ep_role", "nixl_port"]) (hz : isZero (e.get field) = false) :
      resolveAITopology args = .pd := by
    by_contra ht
    simp [hv.endpoints ht e he field hf] at hz
  constructor
  case observed =>
    intro k hk
    have hd : (e.delete ["state", "counter"]).get k = .undefined := by
      rw [JsObject.get_delete, if_pos hk]
    have hne (j : String) (hj : j ∉ ["state", "counter"]) : k ≠ j := fun h => hj (h ▸ hk)
    have hs : (serializeEndpoint (engineOf args) (resolveAITopology args) <|
        e.delete ["state", "counter"]).get k = .undefined :=
      (serializeEndpoint_get (fun h => absurd h <| hne "ep_role" (by decide))
        (fun h => absurd h <| hne "nixl_port" (by decide))).trans hd
    rw [sentEndpoint, cleanObject_get (hs ▸ nonNegative_undefined), hs]
  case others =>
    intro k hk hn
    simp only [List.mem_cons, List.not_mem_nil, or_false, not_or] at hk
    obtain ⟨hs, hc, hr, hp⟩ := hk
    exact sentEndpoint_get (by simp [hs, hc]) hn (fun h => absurd h hr) fun h => absurd h hp
  case role =>
    exact fun hz hn => sentEndpoint_get (by decide) hn (fun _ => hpd (by decide) hz) nofun
  case nixlPort =>
    exact fun hz hn hvllm => sentEndpoint_get (by decide) hn nofun fun _ => ⟨hpd (by decide) hz, hvllm⟩

end Endpoint

section Carried

variable {es : List JsObject}

theorem cleaned_get (hv : ValidRule args es) (hs : SameConditions b args)
    (hb : b.get k = args.get k) (hz : isZero (args.get k) = false) (hnan : args.get k ≠ .number .nan)
    (ho : ¬LeftOut args k) (hk : k ∉ admissionFields) (hn : NonNegative (args.get k)) :
    (cleanObject <| serializeGateway (engineOf args) (resolveAITopology args) b).get k = args.get k := by
  have hp := present_of_nonzero hz hnan
  have hg := (serializeGateway_get hv hs (hb ▸ hp) hp hz ho hk).trans hb
  rw [cleanObject_get (hg ▸ hn), hg]

theorem typed_sent (h : Typed args) : Typed (sentArguments args) where
  texts   := by
    intro field hf
    have hk : field ∉ ["managed", "id"] ++ readOnlyServiceArguments := by
      revert field
      decide
    rw [sentArguments_get hk]
    exact h.texts field hf
  backend := by
    rw [sentArguments_get (by decide)]
    exact h.backend

theorem backendTlsApplies_sent : backendTlsApplies (sentArguments args) = backendTlsApplies args := by
  rw [backendTlsApplies, sentArguments_get (by decide), sentArguments_get (by decide), backendTlsApplies]

theorem other_get (h : BackendTlsPart (sentArguments args) b) (hk : k ∉ backendTlsStringFields)
    (hm : k ≠ "mtls_backend") (hs : k ∉ ["managed", "id"] ++ readOnlyServiceArguments) :
    b.get k = args.get k := by
  rw [h.others k hk hm, sentArguments_get hs]

theorem sameConditions_sent (h : BackendTlsPart (sentArguments args) b) : SameConditions b args where
  apiKeyAuth := other_get h (by decide) (by decide) (by decide)
  sel        := other_get h (by decide) (by decide) (by decide)
  exactMode  := other_get h (by decide) (by decide) (by decide)
  profile    := other_get h (by decide) (by decide) (by decide)

-- A member that does not travel as it is left aside, the backend TLS part hands it on.
theorem tlsPart_get (ht : Typed args) (h : BackendTlsPart (sentArguments args) b) (hk : k ∉ notSent)
    (hm : k ≠ "mtls_backend") (hz : isZero (args.get k) = false) (ha : ¬Altered args k) :
    b.get k = args.get k := by
  simp only [notSent, List.mem_append (t := admissionFields), not_or] at hk
  by_cases hf : k ∈ backendTlsStringFields
  case neg => exact other_get h hf hm hk.left
  case pos =>
    have happlies : backendTlsApplies args = true := by
      by_contra hn
      exact ha <| .tls k hf <| by simpa using hn
    obtain hu | ⟨s, hs⟩ := ht.texts k hf
    · simp [hu, isZero] at hz
    · have hne : s ≠ "" := by
        rintro rfl
        simp [hs, isZero] at hz
      have htrim : JsString.trim s = s := by
        by_contra hp
        exact ha <| .padded k s hf hs hp
      rw [hs]
      refine h.texts k hf s ?_ hne htrim <| backendTlsApplies_sent.trans happlies
      rw [sentArguments_get hk.left, hs]

theorem not_leftOut (h : k ∉ leftOutFields) : ¬LeftOut args k :=
  fun ho => h ho.mem

theorem keptMembers_clean {applies : Bool} (h : Clean (.object ms)) :
    Clean (.object <| keptMembers applies ms) := by
  cases h
  case object hn hc =>
    refine .object _ (fun m hm => ?_) fun m hm => ?_
    · obtain hm | rfl := mem_keptMembers hm
      · exact hn m hm
      · rfl
    · obtain hm | rfl := mem_keptMembers hm
      · exact hc m hm
      · exact .bool true

section Assembled

variable (hv : ValidRule args es) (ht : Typed args) (hnan : ∀ k, args.get k ≠ .number .nan)
variable (hb : BackendTlsPart (sentArguments args) b)
include hv ht hnan hb

theorem argument_carried (hk : k ∉ notSent) (hm : k ≠ "mtls_backend") (hz : isZero (args.get k) = false)
    (hn : NonNegative (args.get k)) (ha : ¬Altered args k) :
    (sentArgumentsOf args b).get k = args.get k := by
  have hs := sameConditions_sent hb
  have hadm : k ∉ admissionFields := fun h => hk <| List.mem_append_right _ h
  have hc := cleaned_get hv hs (tlsPart_get ht hb hk hm hz ha) hz (hnan k)
    (fun ho => ha <| .leftOut k ho) hadm hn
  rw [sentArgumentsOf, dropInert_get, hc]
  · intro hp
    have hmon : args.get "monitor" = .bool true := by
      by_contra h
      exact ha <| .probe k hp h
    have hc := cleaned_get hv hs (k := "monitor") (other_get hb (by decide) (by decide) (by decide))
      (by rw [hmon]; rfl) (hnan _) (not_leftOut <| by decide) (by decide)
      (by rw [hmon]; exact ⟨rfl, .bool true⟩)
    rw [hc, hmon]
    rfl
  · rintro rfl
    rw [hc]
    by_contra h
    exact ha <| .frontend <| by simpa using h

omit hnan in
theorem backend_carried (hc : Clean (args.get "mtls_backend")) {m : String}
    (hz : isZero ((args.get "mtls_backend").get m) = false)
    (hm : m = "verify_server_cert" → backendTlsApplies args = true ∧
      (args.get "mtls_backend").get m = .bool true) :
    ((sentArgumentsOf args b).get "mtls_backend").get m = (args.get "mtls_backend").get m := by
  have hobject : isZero (args.get "mtls_backend") = false := by
    by_contra h
    simp [isZero_get (by simpa using h)] at hz
  obtain hu | ⟨ms, hms⟩ := ht.backend
  · simp [hu, isZero] at hobject
  · rw [hms] at hz hm hc ⊢
    have hget := @keptMembers_get (backendTlsApplies args) m ms hm
    have hne : keptMembers (backendTlsApplies args) ms ≠ [] := by
      intro h
      rw [← hget, h] at hz
      simp [JsValue.get, isZero] at hz
    have hsent : (sentArguments args).get "mtls_backend" = .object ms := by
      rw [sentArguments_get (by decide), hms]
    have hb' := hb.backend ms hsent (by rwa [backendTlsApplies_sent])
    rw [backendTlsApplies_sent] at hb'
    have hg := serializeGateway_get hv (sameConditions_sent hb) (k := "mtls_backend")
      (by rw [hb']; exact ⟨rfl, rfl⟩) (by rw [hms]; exact ⟨rfl, rfl⟩) hobject
      (not_leftOut <| by decide) (by decide)
    rw [hb'] at hg
    rw [sentArgumentsOf, dropInert_get (k := "mtls_backend") (fun h => absurd h <| by decide)
      (fun h => absurd h <| by decide), cleanObject_get, hg, hget]
    rw [hg]
    exact ⟨rfl, keptMembers_clean hc⟩

end Assembled

end Carried

theorem forall₂_map {R : JsObject → JsObject → Prop} {l : List JsObject} {f : JsObject → JsObject}
    (h : ∀ e ∈ l, R e (f e)) : List.Forall₂ R l (l.map f) :=
  List.forall₂_map_right_iff.mpr <| List.forall₂_same.mpr h

theorem unchanged_cleanObject (e : JsObject) : Unchanged e (cleanObject e) :=
  fun _ => cleanObject_get

theorem replaceCarries_of {body : ServiceConfiguration} (hr : Read fresh)
    (hv : ValidRule fresh.serviceArguments (fresh.endpoints.getD []))
    (hb : BackendTlsPart (sentArguments fresh.serviceArguments) b)
    (ha : body.serviceArguments = sentArgumentsOf fresh.serviceArguments b)
    (he : body.endpoints = some ((fresh.endpoints.getD []).map <| sentEndpoint fresh.serviceArguments))
    (hs : body.secondaryIPs = some ((fresh.secondaryIPs.getD []).map cleanObject))
    (hl : body.allowedSources = some ((fresh.allowedSources.getD []).map cleanObject)) :
    ReplaceCarries fresh body where
  arguments k hk hm hz hn hk' := by
    rw [ha]
    exact argument_carried hv hr.typed hr.noNaN hb hk hm hz hn hk'
  backend hc m hz hm := by
    rw [ha]
    exact backend_carried hv hr.typed hb hc hz hm
  endpoints      := ⟨_, he, forall₂_map fun _ he => sentEndpoint_carried hv he⟩
  secondaryIPs   := ⟨_, hs, forall₂_map fun e _ => unchanged_cleanObject e⟩
  allowedSources := ⟨_, hl, forall₂_map fun e _ => unchanged_cleanObject e⟩

-- A replace that changes nothing carries the rule that was read, but for what the serializers leave
-- out of it by its other members.
theorem replace_carries (hr : Read fresh) (hm : fresh.serviceArguments.get "mode" = .number 4)
    (hv : validateAIConfiguration fresh = some []) :
    ∃ body, replaceBody fresh = some body ∧ ReplaceCarries fresh body := by
  obtain ⟨b, hb, hpart⟩ := serializeBackendTls_spec <| typed_sent hr.typed
  have hmode : b.get "mode" = .number 4 := by
    rw [other_get hpart (by decide) (by decide) (by decide), hm]
  refine ⟨_, replaceBody_eq hb hmode, ?_⟩
  apply replaceCarries_of hr (validRule hm hv) hpart <;> dsimp only

section Stale

theorem get_ne_of_entries (h : ∀ m ∈ args.entries, m.2 ≠ v) (hv : v ≠ .undefined) (k : String) :
    args.get k ≠ v := by
  rw [JsObject.get, Dict.get?]
  cases hl : args.entries.lookup k
  case none   => exact hv.symm
  case some w => exact h _ <| Dict.mem_of_lookup hl

def prefillDecode (ip : String) (role : JsNumber) : JsObject :=
  ⟨[("endpointIP", .string ip), ("ep_role", .number role), ("nixl_port", .number 7001)], by simp⟩

-- Exact routing on TensorRT-LLM, with members of other engines still on it.
def trtllmRule : ServiceConfiguration where
  serviceArguments := {
    entries := [
      ("mode", .number 4),
      ("security", .number 2),
      ("kvEngineType", .string "trtllm"),
      ("pd_disagg_mode", .bool true),
      ("kvExactMode", .number 1),
      ("kvBlockSize", .number 32),
      ("kvZmqPort", .number 5557),
      ("kvDpRankCount", .number 2),
      ("kvExactApiMode", .string "chat"),
      ("backend_client_cert_id", .string " client ")
    ]
    nodup := by decide
  }
  endpoints      := some [prefillDecode "10.1.0.1" 1, prefillDecode "10.1.0.2" 2]
  secondaryIPs   := none
  allowedSources := some []

theorem trtllmRule_read : Read trtllmRule where
  typed := {
    texts   := by
      simp only [backendTlsStringFields, List.forall_mem_cons]
      exact ⟨.inl rfl, .inr ⟨_, rfl⟩, .inl rfl, by simp⟩
    backend := .inl rfl
  }
  noNaN := get_ne_of_entries (by simp [trtllmRule]) (by simp)

theorem replace_carries_trtllmRule :
    ∃ body, replaceBody trtllmRule = some body ∧ ReplaceCarries trtllmRule body :=
  replace_carries trtllmRule_read rfl (by decide +kernel)

-- A rule without exact routing, with what earlier settings left on it.
def plainRule : ServiceConfiguration where
  serviceArguments := {
    entries := [
      ("mode", .number 4),
      ("probetype", .string "tcp"),
      ("mtls_frontend", .object [("client_cert_mode", .string "disabled")]),
      ("backend_ca_cert_id", .string "ca"),
      ("mtls_backend", .object [("verify_server_cert", .bool true)]),
      ("jwt_auth_profile", .string "staff"),
      ("chwbl_mean_load_factor", .number 125),
      ("kvBlockSize", .number 16),
      ("pd_session_ttl_sec", .number 60),
      ("inactiveTimeOut", .number (-1))
    ]
    nodup := by decide
  }
  endpoints      := some []
  secondaryIPs   := none
  allowedSources := some []

def accepted (fresh : ServiceConfiguration) : Bool :=
  validateAIConfiguration fresh = some [] && validateBackendTls fresh.serviceArguments = some []

-- A member with a value that the replace does not carry.
def isLost (fresh : ServiceConfiguration) (field : String) : Bool :=
  !isZero (fresh.serviceArguments.get field) &&
    (replaceBody fresh).any fun body => isZero <| body.serviceArguments.get field

-- Rules that both validations accept, and members with a value that their replace leaves out or
-- changes.
theorem not_carried_staleRules :
    (accepted plainRule ∧ ∀ field ∈ ["probetype", "mtls_frontend", "backend_ca_cert_id",
      "mtls_backend", "jwt_auth_profile", "chwbl_mean_load_factor", "kvBlockSize",
      "pd_session_ttl_sec", "inactiveTimeOut"], isLost plainRule field) ∧
    (accepted trtllmRule ∧ ∀ field ∈ ["kvZmqPort", "kvDpRankCount", "kvExactApiMode"],
      isLost trtllmRule field) ∧
    (replaceBody trtllmRule).any (fun body =>
      (body.serviceArguments.get "backend_client_cert_id").strictEq (.string "client") &&
        (body.endpoints.getD []).all fun e => isZero <| e.get "nixl_port") := by
  decide +kernel

end Stale

end Replace

end LoadBalancer
