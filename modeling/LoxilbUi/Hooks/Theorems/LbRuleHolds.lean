import LoxilbUi.Hooks.Theorems.LbRuleLanded

-- No false confirmation: the row that confirms a write is the rule that was sent, with its values.

namespace LBRuleApplied

open AIGateway LoadBalancer

variable {v asked served : JsValue} {want got e f : JsObject} {es : List JsObject}
variable {s : LBRuleSubmission} {r : ServiceConfiguration} {rows : List ServiceConfiguration}
variable {write : Write} {rule : LBFieldConfirmation}

-- What a confirmation says of the row that gave it.
section Holds

structure SameIdentity (want got : JsObject) : Prop where
  externalIP      : text (got.get "externalIP") = text (want.get "externalIP")
  port            : got.get "port" = want.get "port"
  portMax         : portMaxOf got = portMaxOf want
  protocol        : JsString.toLowerCase (text <| got.get "protocol") =
    JsString.toLowerCase (text <| want.get "protocol")
  host            : text (got.get "host") = text (want.get "host")
  path_prefix     : text (got.get "path_prefix") = text (want.get "path_prefix")
  path_match_mode : matchMode got = matchMode want
  model_name      : text (got.get "model_name") = text (want.get "model_name")
  name            : text (want.get "name") ≠ "" → got.get "name" = want.get "name"
  block           : blockOf want = blockOf got

-- The gateway means the same by the word as by leaving the field out.
def MeansAbsent (absentAs : String) (v : JsValue) : Prop :=
  ZeroValue v ∨ v = .string absentAs

structure SameTriple (asked served : JsValue) : Prop where
  canonical : canonicalBandTriple asked = canonicalBandTriple served
  numbers   : ∀ ps qs, IsTriple ps → IsTriple qs → asked = .string (tripleText ps) →
    served = .string (tripleText qs) → ps.map JsNumber.ofDigits = qs.map JsNumber.ofDigits

def LBFieldConfirmation.Confirms (mode asked served : JsValue) : LBFieldConfirmation → Prop
  | .echo => Flat asked → ZeroAlike asked served
  | .echoAs absentAs fullproxyOnly => (fullproxyOnly = true → mode = .number 4) →
    asked.strictEq served = true ∨ MeansAbsent absentAs asked ∧ MeansAbsent absentAs served
  | .triple => SameTriple asked served
  | _ => True

-- Of the backends listed with one address the last one counts.
def LastAt (es : List JsObject) (e : JsObject) : Prop :=
  ∃ before after, es = before ++ e :: after ∧ ∀ e' ∈ after, address e' ≠ address e

structure SameEndpoints (asked served : List JsObject) : Prop where
  addresses : ∀ a, a ∈ asked.map address ↔ a ∈ served.map address
  values    : ∀ e f, LastAt asked e → LastAt served f → address e = address f →
    ∀ field ∈ endpointFields, e.has field = true → Flat (e.get field) →
      ZeroAlike (e.get field) (f.get field)

structure Holds (s : LBRuleSubmission) (r : ServiceConfiguration) : Prop where
  identity       : SameIdentity s.serviceArguments r.serviceArguments
  values         : ∀ field asked rule, s.serviceArguments.get? field = some asked →
    lbFieldConfirmation.lookup field = some rule →
    rule.Confirms (r.serviceArguments.get "mode") asked (r.serviceArguments.get field)
  endpoints      : ∀ asked, s.endpoints = some asked → SameEndpoints asked (r.endpoints.getD [])
  allowedSources : ∀ asked, s.allowedSources = some asked →
    (asked.map sourceText).Perm ((r.allowedSources.getD []).map sourceText)

theorem numberEq_inv {n m : JsNumber} (h : n.strictEq m = true) : n = m := by
  cases n <;> simp_all [JsNumber.strictEq]

theorem sameIdentity_of_sameRule (h : sameRule want got = true) : SameIdentity want got := by
  simp only [sameRule, ne_eq, Bool.not_eq_eq_eq_not, Bool.not_true, decide_not, Bool.and_eq_true,
    decide_eq_false_iff_not, Bool.if_false_left, Bool.decide_and, Bool.decide_eq_false,
    Bool.not_and, Bool.not_not, ite_not, Bool.if_false_right, decide_eq_true_eq,
    Bool.or_eq_true] at h
  obtain ⟨hip, hp, hm, hpr, hh, hpp, hmn, hmm, hn, hb⟩ := h
  exact {
    externalIP := hip
    port := JsValue.strictEq_inv hp
    portMax := numberEq_inv hm
    protocol := hpr
    host := hh
    path_prefix := hpp
    model_name := hmn
    path_match_mode := hmm
    name := fun ht => JsValue.strictEq_inv <| hn.resolve_left ht
    block := numberEq_inv hb
  }

theorem sameArguments_inv {field : String} (h : sameArguments want got write = true)
    (ha : want.get? field = some asked) (hr : lbFieldConfirmation.lookup field = some rule) :
    confirmsAs (fullproxy want got) write asked (got.get field) rule = true := by
  have h := List.all_eq_true.mp h _ <| Dict.get?_eq_some_iff.mp ha
  simpa [hr] using h

theorem strictEq_of_sameValue {n : JsNumber} (hn : n ≠ 0) (h : sameValue v (.number n) = true) :
    v.strictEq (.number n) = true := by
  have hz : isZero (.number n) = false := by
    simpa [isZero, ← Bool.not_eq_true, JsNumber.strictEq_zero_iff] using hn
  rw [sameValue.eq_def, hz] at h
  split at h
  case isTrue  => contradiction
  case isFalse => cases v <;> exact h

-- The mode is read back as it was sent, so either side says whether the rule is a fullproxy one.
theorem fullproxy_of_mode (h : sameArguments want got write = true)
    (hm : got.get "mode" = .number 4) : fullproxy want got = true := by
  cases hn : (want.get "mode").isNil
  case true  => simp [fullproxy, hn, hm, JsValue.strictEq, JsNumber.strictEq]
  case false =>
    have ha := @JsValue.get?_of_get want "mode" fun hu => by simp [hu, JsValue.isNil] at hn
    have hs : sameValue (want.get "mode") (.number 4) = true :=
      hm ▸ sameArguments_inv h ha (show _ = some .echo by decide)
    simpa [fullproxy, hn] using strictEq_of_sameValue (by decide) hs

theorem settle_inv {absentAs : String}
    (h : (settle absentAs asked).strictEq (settle absentAs served) = true) :
    asked.strictEq served = true ∨ MeansAbsent absentAs asked ∧ MeansAbsent absentAs served := by
  simp only [settle] at h
  split at h <;> split at h
  case isTrue.isTrue ha hs =>
    exact .inr ⟨.inl <| isZero_iff _ |>.mp ha, .inl <| isZero_iff _ |>.mp hs⟩
  case isTrue.isFalse ha _ =>
    exact .inr ⟨.inl <| isZero_iff _ |>.mp ha, .inr (JsValue.strictEq_inv h).symm⟩
  case isFalse.isTrue _ hs =>
    exact .inr ⟨.inr <| JsValue.strictEq_inv h, .inl <| isZero_iff _ |>.mp hs⟩
  case isFalse.isFalse => exact .inl h

theorem confirms_of_confirmsAs (h : sameArguments want got write = true)
    (hc : confirmsAs (fullproxy want got) write asked served rule = true) :
    rule.Confirms (got.get "mode") asked served := by
  cases rule
  case echo => exact fun hf => zeroAlike_of_sameValue hf hc
  case echoAs absentAs fullproxyOnly =>
    intro hm
    simp only [confirmsAs] at hc
    split at hc
    case isTrue hn =>
      simp only [Bool.and_eq_true, Bool.not_eq_true'] at hn
      exact absurd (fullproxy_of_mode h <| hm hn.left) (by simp [hn.right])
    case isFalse => exact settle_inv hc
  case triple =>
    have hc : canonicalBandTriple asked = canonicalBandTriple served := by
      simpa [confirmsAs] using hc
    exact ⟨hc, fun ps qs hp hq ha hs => canonicalBandTriple_eq_iff hp hq |>.mp <| ha ▸ hs ▸ hc⟩
  all_goals trivial

theorem get?_byKey_of_lastAt (hp : ∀ e ∈ es, HasPort e) (h : LastAt es e) :
    (byKey es).get? (endpointKey e) = some e := by
  obtain ⟨before, after, rfl, hn⟩ := h
  rw [byKey, List.map_append, List.map_cons]
  refine Dict.get?_ofList_append fun p hm hk => ?_
  obtain ⟨e', he', rfl⟩ := List.mem_map.mp hm
  exact hn e' he' <| endpointKey_inj (hp e' (by simp [he'])) (hp e (by simp)) hk

theorem mem_addresses_iff (hp : ∀ e ∈ es, HasPort e) (hf : HasPort f) :
    address f ∈ es.map address ↔ endpointKey f ∈ (byKey es).keys := by
  rw [mem_keys_byKey, List.mem_map]
  refine ⟨fun ⟨e, he, h⟩ => ⟨e, he, endpointKey_eq_of_address h⟩, fun ⟨e, he, h⟩ => ⟨e, he, ?_⟩⟩
  exact endpointKey_inj (hp e he) hf h

theorem sameEndpoint_inv (h : sameEndpoint e f = true) {field : String} (hf : field ∈ endpointFields)
    (hh : e.has field = true) : sameValue (e.get field) (f.get field) = true := by
  have h := List.all_eq_true.mp h field hf
  simpa [hh] using h

theorem sameEndpoints_inv {served : Option (List JsObject)} (hp : ∀ e ∈ es, HasPort e)
    (hs : ∀ f ∈ served.getD [], HasPort f) (h : sameEndpoints es served = true) :
    SameEndpoints es (served.getD []) := by
  simp only [sameEndpoints, Bool.and_eq_true, decide_eq_true_eq, List.all_eq_true] at h
  obtain ⟨hsize, h⟩ := h
  have hrow {k : String} {e : JsObject} (he : (byKey es).get? k = some e) :
      ∃ row, (byKey (served.getD [])).get? k = some row ∧ sameEndpoint e row = true := by
    have h := h _ <| Dict.get?_eq_some_iff.mp he
    exact Option.any_eq_true .. |>.mp h
  have hsub : (byKey es).keys ⊆ (byKey (served.getD [])).keys := by
    intro k hk
    obtain ⟨_, he⟩ := Dict.mem_keys_iff.mp hk
    obtain ⟨row, hr, _⟩ := hrow he
    exact Dict.mem_keys_iff.mpr ⟨row, hr⟩
  constructor
  case addresses =>
    intro a
    constructor
    · intro ha
      obtain ⟨e, he, rfl⟩ := List.mem_map.mp ha
      exact mem_addresses_iff hs (hp e he) |>.mpr <| hsub <| mem_addresses_iff hp (hp e he) |>.mp ha
    · intro ha
      obtain ⟨f, hf, rfl⟩ := List.mem_map.mp ha
      exact mem_addresses_iff hp (hs f hf) |>.mpr <| Dict.keys_of_size_eq hsize hsub <|
        mem_addresses_iff hs (hs f hf) |>.mp ha
  case values =>
    intro e f he hf ha field hfield hh hflat
    obtain ⟨row, hr, hsame⟩ := hrow <| get?_byKey_of_lastAt hp he
    rw [endpointKey_eq_of_address ha, get?_byKey_of_lastAt hs hf] at hr
    cases hr
    exact zeroAlike_of_sameValue hflat <| sameEndpoint_inv hsame hfield hh

end Holds

-- Every backend names its port, as its type says.
def PortsGiven (c : ServiceConfiguration) : Prop :=
  ∀ e ∈ c.endpoints.getD [], HasPort e

theorem any_not_inv {α : Type} {o : Option α} {p : α → Bool} (h : o.any (fun a => !p a) = false)
    (a : α) (ha : o = some a) : p a = true := by
  simpa [ha] using h

theorem holds_of_rowApplied (hs : PortsGiven s) (hr : PortsGiven r)
    (h : rowApplied s write r = true) : Holds s r := by
  simp only [rowApplied, Bool.not_eq_eq_eq_not, Bool.not_true, Bool.if_false_left, Bool.and_eq_true,
    decide_eq_false_iff_not, Bool.not_eq_false, Bool.decide_eq_true] at h
  obtain ⟨hrule, hargs, hends, hsources, _⟩ := h
  exact {
    identity := sameIdentity_of_sameRule hrule
    values := fun field asked rule ha hl =>
      confirms_of_confirmsAs hargs <| sameArguments_inv hargs ha hl
    endpoints := fun asked ha =>
      have hp : ∀ e ∈ asked, HasPort e := fun e he => hs e <| by simpa [ha] using he
      sameEndpoints_inv hp hr <| any_not_inv hends asked ha
    allowedSources := fun asked ha => by
      have h := any_not_inv hsources asked ha
      simpa [sameSources, sortedTexts_eq_iff] using h
  }

-- No false confirmation: one row of the list is the rule that was sent, with the values sent.
theorem holds_of_lbRuleApplied (hs : PortsGiven s) (hr : ∀ r ∈ rows, PortsGiven r)
    (h : lbRuleApplied s write rows = true) : ∃ r ∈ rows, Holds s r := by
  obtain ⟨r, hm, h⟩ := List.any_eq_true.mp h
  exact ⟨r, hm, holds_of_rowApplied hs (hr r hm) h⟩

theorem chatEndpoint_port (ip : String) (weight : JsNumber) : HasPort (chatEndpoint ip weight) :=
  ⟨8080, rfl⟩

theorem chatRule_ports : PortsGiven chatRule := by
  simp [PortsGiven, chatRule, chatEndpoint_port]

theorem chatRow_ports : PortsGiven chatRow := by
  simp [PortsGiven, chatRow, chatEndpoint_port]

theorem holds_of_lbRuleApplied_chatRule : ∃ r ∈ [chatRow], Holds chatRule r :=
  @holds_of_lbRuleApplied _ _ .post chatRule_ports
    (by simpa using chatRow_ports) (by decide +kernel)

-- One address sent twice, and a triple with a leading zero.
def twiceRule : LBRuleSubmission :=
  { chatRule with endpoints := some [chatEndpoint "10.1.0.1" 1, chatEndpoint "10.1.0.1" 2] }

def twiceRow : ServiceConfiguration :=
  { chatRow with endpoints := some [chatEndpoint "10.1.0.1" 2] }

-- The row is taken although the weight sent first and the text of the triple are not the ones read
-- back.
theorem not_asSent_twiceRule : lbRuleApplied twiceRule .post [twiceRow] = true ∧
    (¬∃ r ∈ [twiceRow], ∀ asked, twiceRule.endpoints = some asked → ∀ e ∈ asked,
      ∃ f ∈ r.endpoints.getD [], address f = address e ∧
        ZeroAlike (e.get "weight") (f.get "weight")) ∧
    ¬∃ r ∈ [twiceRow], ZeroAlike (twiceRule.serviceArguments.get "fc_band_weights")
      (r.serviceArguments.get "fc_band_weights") := by
  refine ⟨by decide +kernel, ?_, ?_⟩
  · rintro ⟨r, hr, h⟩
    obtain rfl := List.mem_singleton.mp hr
    obtain ⟨f, hf, _, h⟩ := h _ rfl _ (.head _)
    obtain rfl := List.mem_singleton.mp hf
    exact absurd (sameValue_of_zeroAlike h) (by decide)
  · rintro ⟨r, hr, h⟩
    obtain rfl := List.mem_singleton.mp hr
    exact absurd (sameValue_of_zeroAlike h) (by decide)

end LBRuleApplied
