import LoxilbUi.Library.Forall2
import LoxilbUi.Hooks.Theorems.LbRuleLists
import LoxilbUi.Hooks.Theorems.LbRuleValues
import LoxilbUi.Hooks.Theorems.SourcePrefix
import LoxilbUi.Types.Theorems.BandTriple

-- A write that landed is confirmed.

namespace LBRuleApplied

open AIGateway LoadBalancer

variable {v w asked served : JsValue} {want got e f : JsObject} {es : List JsObject}
variable {s : LBRuleSubmission} {r : ServiceConfiguration} {rows : List ServiceConfiguration}
variable {rule : LBFieldConfirmation}

-- A write that landed: what the row of the rule may read back of it.
section Landed

structure EndpointAlike (e f : JsObject) : Prop where
  endpointIP : ZeroAlike (e.get "endpointIP") (f.get "endpointIP")
  targetPort : ∃ n, e.get "targetPort" = .number n ∧ f.get "targetPort" = .number n
  values     : ∀ field ∈ endpointFields, ZeroAlike (e.get field) (f.get field)

inductive SourceAlike (e f : JsObject) : Prop
  | same (h : ZeroAlike (e.get "prefix") (f.get "prefix"))
  | network (p q : String) (address network : BitVec 32) (bits : Nat)
    (he : e.get "prefix" = .string p) (hf : f.get "prefix" = .string q)
    (hp : WritesPrefix p address bits) (hq : WritesPrefix q network bits)
    (h : HostBitsCleared bits address network)

-- Read back in any order.
def Permuted (R : JsObject → JsObject → Prop) (asked : List JsObject)
    (served : Option (List JsObject)) : Prop :=
  ∃ l, List.Forall₂ R asked l ∧ l.Perm (served.getD [])

-- A range that does not reach past its port is not kept.
inductive PortMaxAlike (port : JsNumber) (v w : JsValue) : Prop
  | same (h : ZeroAlike v w)
  | dropped (portMax : JsNumber) (hv : v = .number portMax) (hl : port.lt portMax = false)
    (hw : ZeroValue w)

structure SameListener (want got : JsObject) (n : JsNumber) : Prop where
  externalIP      : ZeroAlike (want.get "externalIP") (got.get "externalIP")
  port            : n ≠ .nan ∧ want.get "port" = .number n ∧ got.get "port" = .number n
  portMax         : PortMaxAlike n (want.get "portMax") (got.get "portMax")
  protocol        : ZeroAlike (want.get "protocol") (got.get "protocol") ∨
    ∃ p q, want.get "protocol" = .string p ∧ got.get "protocol" = .string q ∧
      JsString.toLowerCase p = JsString.toLowerCase q
  host            : ZeroAlike (want.get "host") (got.get "host")
  path_prefix     : ZeroAlike (want.get "path_prefix") (got.get "path_prefix")
  path_match_mode : ZeroAlike (want.get "path_match_mode") (got.get "path_match_mode") ∨
    want.get "path_match_mode" = .string "disabled" ∧ ZeroValue (got.get "path_match_mode")
  model_name      : ZeroAlike (want.get "model_name") (got.get "model_name")
  -- A rule that was sent without a name is given one.
  name            : ZeroAlike (want.get "name") (got.get "name") ∨ ZeroValue (want.get "name")
  block           : ZeroAlike (want.get "block") (got.get "block")

-- What a field may read back, by how it is classified.
def LBFieldConfirmation.ReadsBack : LBFieldConfirmation → JsValue → JsValue → Prop
  | .identity, _, _ | .skip, _, _ | .patchOnly, _, _ => True
  | .echo, asked, served | .members _, asked, served => ZeroAlike asked served
  | .echoAs absentAs _, asked, served =>
    (ZeroValue asked ∧ ZeroValue served) ∨ asked.strictEq served = true ∨
      asked = .string absentAs ∧ ZeroValue served
  | .nonzero, asked, served => asked.strictEq served = true ∨ ZeroValue asked
  | .triple, asked, served  => TripleAlike asked served

structure Landed (s : LBRuleSubmission) (r : ServiceConfiguration) : Prop where
  listener       : ∃ port, SameListener s.serviceArguments r.serviceArguments port
  values         : ∀ field asked rule, s.serviceArguments.get? field = some asked →
    lbFieldConfirmation.lookup field = some rule →
    rule.ReadsBack asked (r.serviceArguments.get field)
  endpoints      : ∀ asked, s.endpoints = some asked → Permuted EndpointAlike asked r.endpoints
  allowedSources : ∀ asked, s.allowedSources = some asked →
    Permuted SourceAlike asked r.allowedSources
  secondaryIPs   : ∀ asked, s.secondaryIPs = some asked → isSctp s.serviceArguments = true →
    Permuted (fun e f => ZeroAlike (e.get "secondaryIP") (f.get "secondaryIP")) asked r.secondaryIPs

-- No two backends that were sent listen at one address.
def DistinctEndpoints (s : LBRuleSubmission) : Prop :=
  ∀ asked, s.endpoints = some asked → (asked.map address).Nodup

end Landed

section Rule

theorem strictEq_self {n : JsNumber} (h : n ≠ .nan) : n.strictEq n = true := by
  cases n <;> simp_all [JsNumber.strictEq]

theorem portMaxOf_ne_nan (args : JsObject) : portMaxOf args ≠ .nan := by
  simp only [portMaxOf]
  split
  case h_1 portMax port _ _ =>
    split
    case isTrue h =>
      rintro rfl
      cases port <;> simp [JsNumber.lt] at h
    case isFalse =>
      intro h
      cases h
  case h_2 =>
    intro h
    cases h

theorem portMaxOf_zero {port : JsNumber} (hp : got.get "port" = .number port)
    (h : ZeroValue (got.get "portMax")) : portMaxOf got = 0 := by
  simp only [portMaxOf, hp]
  generalize got.get "portMax" = v at h
  cases h <;> simp

theorem portMaxOf_eq {port : JsNumber} (hw : want.get "port" = .number port)
    (hg : got.get "port" = .number port)
    (h : PortMaxAlike port (want.get "portMax") (got.get "portMax")) :
    portMaxOf got = portMaxOf want := by
  cases h
  case dropped portMax hv hl h =>
    rw [portMaxOf_zero hg h]
    simp [portMaxOf, hw, hv, hl]
  case same h =>
    generalize hv : want.get "portMax" = v at h
    generalize hv' : got.get "portMax" = v' at h
    cases h
    case zero hz hz' => rw [portMaxOf_zero hg (hv' ▸ hz'), portMaxOf_zero hw (hv ▸ hz)]
    case same h      => simp [portMaxOf, hw, hg, hv, hv', JsValue.strictEq_inv h]
    case array       => simp [portMaxOf, hv, hv']
    case object      => simp [portMaxOf, hv, hv']

theorem blockOf_zero (h : ZeroValue (got.get "block")) : blockOf got = 0 := by
  simp only [blockOf]
  generalize got.get "block" = v at h
  cases h <;> simp

theorem blockOf_same (h : ZeroAlike (want.get "block") (got.get "block")) :
    (blockOf want).strictEq (blockOf got) = true := by
  generalize hv : want.get "block" = v at h
  generalize hv' : got.get "block" = v' at h
  cases h
  case zero hz hz' => rw [blockOf_zero (hv ▸ hz), blockOf_zero (hv' ▸ hz')]; rfl
  case same h      =>
    obtain rfl := JsValue.strictEq_inv h
    simp only [blockOf, hv, hv']
    cases v <;> first | exact h | rfl
  case array       => simp only [blockOf, hv, hv']; rfl
  case object      => simp only [blockOf, hv, hv']; rfl

theorem matchMode_eq (h : ZeroAlike (want.get "path_match_mode") (got.get "path_match_mode") ∨
    want.get "path_match_mode" = .string "disabled" ∧ ZeroValue (got.get "path_match_mode")) :
    matchMode got = matchMode want := by
  obtain h | ⟨hw, hg⟩ := h
  · simp only [matchMode, text_eq_of_zeroAlike h]
  · simp [matchMode, hw, text_zero hg, show text (.string "disabled") = "disabled" from rfl]

theorem name_same (h : ZeroAlike (want.get "name") (got.get "name") ∨ ZeroValue (want.get "name"))
    (hn : text (want.get "name") ≠ "") : (got.get "name").strictEq (want.get "name") = true := by
  generalize want.get "name" = v at h hn
  generalize got.get "name" = v' at h
  obtain h | h := h
  · cases h
    case zero hz _ => exact absurd (text_zero hz) hn
    case same h    => exact JsValue.strictEq_inv h ▸ JsValue.strictEq_self h
    all_goals exact absurd rfl hn
  · exact absurd (text_zero h) hn

theorem protocol_eq (h : ZeroAlike v w ∨ ∃ p q, v = .string p ∧ w = .string q ∧
    JsString.toLowerCase p = JsString.toLowerCase q) :
    JsString.toLowerCase (text w) = JsString.toLowerCase (text v) := by
  obtain h | ⟨p, q, rfl, rfl, h⟩ := h
  · rw [text_eq_of_zeroAlike h]
  · exact h.symm

theorem sameRule_of_sameListener {n : JsNumber} (h : SameListener want got n) :
    sameRule want got = true := by
  obtain ⟨hn, hw, hg⟩ := h.port
  have hp : (got.get "port").strictEq (want.get "port") = true := by
    rw [hw, hg]
    exact strictEq_self hn
  have hm : (portMaxOf got).strictEq (portMaxOf want) = true :=
    portMaxOf_eq hw hg h.portMax ▸ strictEq_self (portMaxOf_ne_nan got)
  have hname : (text (want.get "name") ≠ "" && !(got.get "name").strictEq (want.get "name")) = false := by
    by_cases ht : text (want.get "name") = ""
    · simp [ht]
    · simp [name_same h.name ht]
  simp only [sameRule, hname]
  simp [text_eq_of_zeroAlike h.externalIP, hp, hm, protocol_eq h.protocol,
    text_eq_of_zeroAlike h.host, text_eq_of_zeroAlike h.path_prefix,
    text_eq_of_zeroAlike h.model_name, matchMode_eq h.path_match_mode, blockOf_same h.block]

theorem settle_same {absentAs : String} {fullproxyOnly : Bool}
    (h : (LBFieldConfirmation.echoAs absentAs fullproxyOnly).ReadsBack asked served) :
    (settle absentAs asked).strictEq (settle absentAs served) = true := by
  have hself : (JsValue.string absentAs).strictEq (.string absentAs) = true := by
    simp [JsValue.strictEq]
  obtain ⟨ha, hs⟩ | h | ⟨rfl, hs⟩ := h
  · rw [settle, settle, isZero_iff asked |>.mpr ha, isZero_iff served |>.mpr hs]
    exact hself
  · obtain rfl := JsValue.strictEq_inv h
    rw [settle]
    split
    case isTrue  => exact hself
    case isFalse => exact h
  · rw [settle, settle, isZero_iff served |>.mpr hs]
    split <;> exact hself

theorem confirmsAs_of_readsBack {fullproxy : Bool} (h : rule.ReadsBack asked served) :
    confirmsAs fullproxy .post asked served rule = true := by
  cases rule
  case identity  => rfl
  case skip      => rfl
  case patchOnly => rfl
  case echo      => exact sameValue_of_zeroAlike h
  case triple    => simpa [confirmsAs] using canonicalBandTriple_of_tripleAlike h
  case nonzero   =>
    obtain h | h := h
    · simp [confirmsAs, h]
    · simp [confirmsAs, isZero_iff asked |>.mpr h]
  case members ms =>
    have hm (member : String) := sameValue_of_zeroAlike <| @ZeroAlike.get _ _ member h
    cases asked <;> simp [confirmsAs, hm]
  case echoAs absentAs fullproxyOnly =>
    simp only [confirmsAs]
    split
    case isTrue  => rfl
    case isFalse => exact settle_same h

theorem sameArguments_of_readsBack
    (h : ∀ field asked rule, want.get? field = some asked →
      lbFieldConfirmation.lookup field = some rule → rule.ReadsBack asked (got.get field)) :
    sameArguments want got .post = true := by
  simp only [sameArguments, List.all_eq_true]
  intro ⟨field, asked⟩ hm
  cases hr : lbFieldConfirmation.lookup field
  case none => rfl
  case some rule => exact confirmsAs_of_readsBack <| h field asked rule (Dict.get?_eq_some_iff.mpr hm) hr

end Rule

section Lists

theorem EndpointAlike.address_eq_text (h : EndpointAlike e f) : endpointKey e = endpointKey f := by
  obtain ⟨n, he, hf⟩ := h.targetPort
  exact endpointKey_eq_of_address <| by simp [address, text_eq_of_zeroAlike h.endpointIP, he, hf]

theorem sameEndpoint_of_alike (h : EndpointAlike e f) : sameEndpoint e f = true := by
  simp only [sameEndpoint, List.all_eq_true, Bool.or_eq_true]
  exact fun field hf => .inr <| sameValue_of_zeroAlike <| h.values field hf

theorem keys_nodup (hd : (es.map address).Nodup) (hp : ∀ e ∈ es, HasPort e) :
    (es.map endpointKey).Nodup := by
  rw [List.Nodup, List.pairwise_map] at hd ⊢
  refine hd.imp_of_mem fun he hf hn hk => hn ?_
  exact endpointKey_inj (hp _ he) (hp _ hf) hk

theorem sameEndpoints_of_permuted {served : Option (List JsObject)}
    (h : Permuted EndpointAlike es served) (hd : (es.map address).Nodup) :
    sameEndpoints es served = true := by
  obtain ⟨l, hl, hperm⟩ := h
  have hkeys : es.map endpointKey = l.map endpointKey := Forall₂.map_eq hl fun _ _ h => h.address_eq_text
  have hp : ∀ e ∈ es, HasPort e := fun e he =>
    have ⟨_, _, h⟩ := Forall₂.exists_right hl he
    have ⟨n, hn, _⟩ := h.targetPort
    ⟨n, hn⟩
  have hn : (l.map endpointKey).Nodup := hkeys ▸ keys_nodup hd hp
  have hmem (k : String) : k ∈ (byKey es).keys ↔ k ∈ (byKey (served.getD [])).keys := by
    rw [mem_keys_byKey, mem_keys_byKey, ← List.mem_map, ← List.mem_map, hkeys]
    exact (hperm.map endpointKey).mem_iff
  simp only [sameEndpoints, Bool.and_eq_true, decide_eq_true_eq, List.all_eq_true]
  refine ⟨Dict.size_eq_of_keys hmem, fun ⟨key, e⟩ he => ?_⟩
  have he := Dict.get?_eq_some_iff.mpr he
  obtain ⟨row, hr⟩ := Dict.mem_keys_iff.mp <| hmem key |>.mp <| Dict.mem_keys_iff.mpr ⟨e, he⟩
  obtain ⟨hes, rfl⟩ := mem_of_get?_byKey he
  obtain ⟨hrow, hk⟩ := mem_of_get?_byKey hr
  obtain ⟨f, hf, hef⟩ := Forall₂.exists_right hl hes
  -- The keys of the row are distinct, so the backend found by the key is the one that was kept.
  obtain rfl : row = f :=
    List.inj_on_of_nodup_map hn (hperm.mem_iff.mpr hrow) hf <| hk.trans hef.address_eq_text
  simp [hr, sameEndpoint_of_alike hef]

theorem sourceText_eq (h : SourceAlike e f) : sourceText e = sourceText f := by
  cases h
  case same h => rw [sourceText, text_eq_of_zeroAlike h, sourceText]
  case network p q address network bits he hf hp hq h =>
    simpa [sourceText, he, hf, text] using canonicalSourcePrefix_eq hp hq h

theorem Permuted.map_perm {R : JsObject → JsObject → Prop} {g : JsObject → String}
    {served : Option (List JsObject)} (h : Permuted R es served) (hg : ∀ e f, R e f → g e = g f) :
    (es.map g).Perm ((served.getD []).map g) := by
  obtain ⟨l, hl, hp⟩ := h
  exact Forall₂.map_eq hl hg ▸ hp.map g

theorem sameSources_of_permuted {served : Option (List JsObject)}
    (h : Permuted SourceAlike es served) : sameSources es served = true := by
  simp only [sameSources, decide_eq_true_eq, sortedTexts_eq_iff]
  exact h.map_perm fun _ _ => sourceText_eq

theorem sameSecondaryIPs_of_permuted {served : Option (List JsObject)}
    (h : Permuted (fun e f => ZeroAlike (e.get "secondaryIP") (f.get "secondaryIP")) es served) :
    sameSecondaryIPs es served = true := by
  simp only [sameSecondaryIPs, decide_eq_true_eq, sortedTexts_eq_iff]
  exact h.map_perm fun _ _ => text_eq_of_zeroAlike

end Lists

theorem any_eq_false {α : Type} {o : Option α} {p : α → Bool} (h : ∀ a, o = some a → p a = false) :
    o.any p = false := by
  cases o
  case none   => rfl
  case some a => exact h a rfl

theorem rowApplied_of_landed (h : Landed s r) (hd : DistinctEndpoints s) :
    rowApplied s .post r = true := by
  obtain ⟨_, hl⟩ := h.listener
  have he : (s.endpoints.any fun asked => !sameEndpoints asked r.endpoints) = false := by
    refine any_eq_false fun asked ha => ?_
    simp [sameEndpoints_of_permuted (h.endpoints asked ha) (hd asked ha)]
  have hs : (s.allowedSources.any fun asked => !sameSources asked r.allowedSources) = false := by
    refine any_eq_false fun asked ha => ?_
    simp [sameSources_of_permuted <| h.allowedSources asked ha]
  have hip : (s.secondaryIPs.any fun asked =>
      isSctp s.serviceArguments && !sameSecondaryIPs asked r.secondaryIPs) = false := by
    refine any_eq_false fun asked ha => Bool.and_eq_false_imp.mpr fun hs => ?_
    simp [sameSecondaryIPs_of_permuted <| h.secondaryIPs asked ha hs]
  simp [rowApplied, sameRule_of_sameListener hl, sameArguments_of_readsBack h.values, he, hs, hip]

-- A write that landed is confirmed, whatever else is listed.
theorem lbRuleApplied_of_landed (h : Landed s r) (hd : DistinctEndpoints s) (hr : r ∈ rows) :
    lbRuleApplied s .post rows = true :=
  List.any_eq_true.mpr ⟨r, hr, rowApplied_of_landed h hd⟩

-- A rule as it may be sent, and the row that the gateway may list for it.
section ChatRule

def chatEndpoint (ip : String) (weight : JsNumber) : JsObject :=
  ⟨[("endpointIP", .string ip), ("targetPort", .number 8080), ("weight", .number weight)], by simp⟩

def chatSource (source : String) : JsObject :=
  ⟨[("prefix", .string source)], by simp⟩

def chatRule : LBRuleSubmission where
  serviceArguments := {
    entries := [
      ("externalIP", .string "10.0.0.1"),
      ("port", .number 443),
      ("portMax", .number 443),
      ("protocol", .string "TCP"),
      ("path_match_mode", .string "disabled"),
      ("mode", .number 4),
      ("monitor", .bool false),
      ("fc_mode", .string "inherit"),
      ("inactiveTimeOut", .number 0),
      ("fc_band_weights", .string "010:2:3")
    ]
    nodup := by decide
  }
  endpoints      := some [chatEndpoint "10.1.0.1" 1, chatEndpoint "10.1.0.2" 2]
  secondaryIPs   := some []
  allowedSources := some [chatSource "10.2.3.4/24"]

def chatRow : ServiceConfiguration where
  serviceArguments := {
    entries := [
      ("externalIP", .string "10.0.0.1"),
      ("port", .number 443),
      ("protocol", .string "tcp"),
      ("name", .string "10.0.0.1_443_tcp"),
      ("block", .number 0),
      ("mode", .number 4),
      ("inactiveTimeOut", .number 240),
      ("fc_band_weights", .string "10:2:3")
    ]
    nodup := by decide
  }
  endpoints      := some [chatEndpoint "10.1.0.2" 2, chatEndpoint "10.1.0.1" 1]
  secondaryIPs   := none
  allowedSources := some [chatSource "10.2.3.0/24"]

theorem chatRule_listener :
    SameListener chatRule.serviceArguments chatRow.serviceArguments 443 where
  externalIP      := .same rfl
  port            := ⟨nofun, rfl, rfl⟩
  portMax         := .dropped 443 rfl (by decide) .undefined
  protocol        := .inr ⟨_, _, rfl, rfl, by decide⟩
  host            := .zero .undefined .undefined
  path_prefix     := .zero .undefined .undefined
  path_match_mode := .inr ⟨rfl, .undefined⟩
  model_name      := .zero .undefined .undefined
  name            := .inr .undefined
  block           := .zero .undefined .number

theorem chatRule_values : ∀ p ∈ chatRule.serviceArguments.entries, ∃ rule,
    lbFieldConfirmation.lookup p.1 = some rule ∧
    rule.ReadsBack p.2 (chatRow.serviceArguments.get p.1) := by
  have htriple : TripleAlike (.string "010:2:3") (.string "10:2:3") :=
    .zeros [['0', '1', '0'], ['2'], ['3']] [['1', '0'], ['2'], ['3']]
      ⟨rfl, by simp [Decimal.AllDigits]⟩
      (.cons ⟨by simp, 1, rfl⟩ <| .cons ⟨by simp, 0, rfl⟩ <| .cons ⟨by simp, 0, rfl⟩ .nil)
  simp only [chatRule, List.forall_mem_cons]
  refine ⟨⟨.identity, by decide, trivial⟩, ⟨.identity, by decide, trivial⟩,
    ⟨.identity, by decide, trivial⟩, ⟨.identity, by decide, trivial⟩,
    ⟨.identity, by decide, trivial⟩, ⟨.echo, by decide, .same rfl⟩,
    ⟨.echo, by decide, .zero .bool .undefined⟩,
    ⟨.echoAs "inherit" false, by decide, .inr <| .inr ⟨rfl, .undefined⟩⟩,
    ⟨.nonzero, by decide, .inr .number⟩, ⟨.triple, by decide, htriple⟩, by simp⟩

theorem chatEndpoint_alike (ip : String) {weight : JsNumber} (h : weight ≠ .nan) :
    EndpointAlike (chatEndpoint ip weight) (chatEndpoint ip weight) where
  endpointIP := .same <| decide_eq_true rfl
  targetPort := ⟨8080, rfl, rfl⟩
  values     := by
    intro field hf
    simp only [endpointFields, List.mem_cons, List.not_mem_nil, or_false] at hf
    obtain rfl | rfl | rfl | rfl := hf
    · exact .same <| strictEq_self h
    all_goals exact .zero .undefined .undefined

theorem chatSource_alike : SourceAlike (chatSource "10.2.3.4/24") (chatSource "10.2.3.0/24") := by
  have writes (d : Char) (hd : d = '4' ∨ d = '0') :
      WritesPrefix (.ofList <| "10.2.3.".toList ++ d :: "/24".toList)
        (octetBits [['1', '0'], ['2'], ['3'], [d]] 0 ++ octetBits [['1', '0'], ['2'], ['3'], [d]] 1 ++
          octetBits [['1', '0'], ['2'], ['3'], [d]] 2 ++ octetBits [['1', '0'], ['2'], ['3'], [d]] 3)
        24 := by
    refine ⟨[['1', '0'], ['2'], ['3'], [d]], ['2', '4'], ?_⟩
    obtain rfl | rfl := hd
    all_goals exact {
      text    := by decide +kernel
      four    := rfl
      octet   := by decide
      length  := by decide
      address := rfl
    }
  refine .network "10.2.3.4/24" "10.2.3.0/24" _ _ 24 rfl rfl (writes '4' (.inl rfl))
    (writes '0' (.inr rfl)) ?_
  intro i hi
  revert i
  decide

theorem chatRule_landed : Landed chatRule chatRow where
  listener       := ⟨443, chatRule_listener⟩
  values         := by
    intro field asked rule ha hl
    obtain ⟨rule', hl', h⟩ := chatRule_values _ <| Dict.get?_eq_some_iff.mp ha
    rw [hl] at hl'
    cases hl'
    exact h
  endpoints      := by
    rintro _ ⟨⟩
    exact ⟨_, .cons (chatEndpoint_alike _ nofun) <| .cons (chatEndpoint_alike _ nofun) .nil, .swap ..⟩
  allowedSources := by
    rintro _ ⟨⟩
    exact ⟨_, .cons chatSource_alike .nil, .refl _⟩
  secondaryIPs   := by
    rintro _ ⟨⟩ -
    exact ⟨_, .nil, .refl _⟩

theorem chatRule_distinct : DistinctEndpoints chatRule := by
  rintro _ ⟨⟩
  simp [address, chatEndpoint, JsObject.get, Dict.get?, text]

theorem lbRuleApplied_of_landed_chatRule : lbRuleApplied chatRule .post [chatRow] = true :=
  lbRuleApplied_of_landed chatRule_landed chatRule_distinct (.head _)

end ChatRule

end LBRuleApplied
