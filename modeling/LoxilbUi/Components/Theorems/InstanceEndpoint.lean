import LoxilbUi.Components.Theorems.InstanceIpv6

-- The endpoint that is made of an accepted form is read back to what was entered, and no other instance
-- has it.

namespace InstanceForm

open Ipv6

variable {lower : String → String} {form : JsObject} {existing : List JsObject} {editing_id : JsValue}
variable {raw protocol host port version : String} {checks : List (Bool × String)} {c : Char}

structure Endpoint where
  protocol : String
  host     : String
  port     : String
  version  : String
  deriving DecidableEq

-- The port stands behind the last colon of what is between the slashes.
def parseEndpoint (endpoint : String) : Option Endpoint :=
  let protocol := endpoint.toList.takeWhile (· ≠ ':')
  match endpoint.toList.drop protocol.length with
  | ':' :: '/' :: '/' :: rest =>
    let authority := rest.takeWhile (· ≠ '/')
    let path := rest.drop authority.length
    if ':' ∈ authority && "/netlox/".toList.isPrefixOf path then some {
      protocol := .ofList protocol
      host     := .ofList <| JsString.beforeLast ':' authority
      port     := .ofList <| JsString.afterLast ':' authority
      version  := .ofList <| path.drop "/netlox/".toList.length }
    else none
  | _ => none

theorem takeWhile_ne {s t : List Char} (h : c ∉ s) : (s ++ c :: t).takeWhile (· ≠ c) = s := by
  have hs : ∀ x ∈ s, decide (x ≠ c) = true := fun x hx => decide_eq_true fun he => h <| he ▸ hx
  rw [List.takeWhile_append_of_pos hs]
  simp

-- Where no part holds what stands behind it, the endpoint is read back.
theorem parseEndpoint_build (hp : ':' ∉ protocol.toList) (hh : '/' ∉ host.toList) (hq : '/' ∉ port.toList)
    (hc : ':' ∉ port.toList) :
    parseEndpoint (buildApiEndpoint protocol host port version) = some ⟨protocol, host, port, version⟩ := by
  have he : (buildApiEndpoint protocol host port version).toList = protocol.toList ++ ':' :: '/' :: '/' ::
      ((host.toList ++ ':' :: port.toList) ++ "/netlox/".toList ++ version.toList) := by
    simp [buildApiEndpoint]
  have ha : '/' ∉ host.toList ++ ':' :: port.toList := by simp [hh, hq]
  have hw : (host.toList ++ ':' :: port.toList ++ "/netlox/".toList ++ version.toList).takeWhile (· ≠ '/') =
      host.toList ++ ':' :: port.toList := by
    rw [List.append_assoc]
    exact takeWhile_ne ha
  rw [parseEndpoint, he]
  simp only [takeWhile_ne hp, List.drop_left, hw]
  rw [List.append_assoc _ "/netlox/".toList, List.drop_left, List.drop_left]
  have hpre : "/netlox/".toList.isPrefixOf ("/netlox/".toList ++ version.toList) = true := by simp
  have hm : ':' ∈ host.toList ++ ':' :: port.toList := by simp
  rw [hpre, JsString.beforeLast_append hc, JsString.afterLast_append hc]
  simp

section Checks

theorem firstOf_last {p : Bool × String} (h : firstOf checks = none) (hl : checks.getLast? = some p) :
    p.1 = false := by
  have h : ∀ p ∈ checks, p.1 = false := by simpa [firstOf] using h
  exact h p <| List.mem_of_getLast? hl

-- What none of the four inputs may bring into the endpoint.
def isForeign (c : Char) : Bool :=
  c ∈ ['/', '@', '?', '#'] || JsString.isBlank c

-- What an accepted host is made of.
def isHostChar (c : Char) : Bool :=
  c.isAlphanum || c ∈ ['-', '.', ':', '[', ']']

theorem isHostChar_of_isHex (h : isHex c = true) : isHostChar c = true := by
  have ha : c.isAlphanum = true := by
    simp only [isHex, Bool.or_eq_true, Bool.and_eq_true, decide_eq_true_eq] at h
    rw [JsString.isAlphanum_iff, JsString.isUpper_iff, JsString.isLower_iff]
    have hf : 'f'.toNat ≤ 122 := by decide
    have hF : 'F'.toNat ≤ 90 := by decide
    obtain (h | h) | h := h
    · exact .inr h
    · exact .inl <| .inr ⟨h.1, Nat.le_trans h.2 hf⟩
    · exact .inl <| .inl ⟨h.1, Nat.le_trans h.2 hF⟩
  simp [isHostChar, ha]

theorem isForeign_of_isHostChar (h : isHostChar c = true) : isForeign c = false := by
  have hf : ['-', '.', ':', '[', ']'].all (!isForeign ·) = true := by decide
  simp only [isHostChar, Bool.or_eq_true, decide_eq_true_eq] at h
  obtain h | h := h
  · have hb := JsString.isAlphanum_bounds h
    have hn : JsString.isBlank c = false := by
      by_contra hn
      have := JsString.isBlank_bounds (c := c) (by simpa using hn)
      omega
    have hs : c ∉ ['/', '@', '?', '#'] := by
      intro hm
      have hd : ['/', '@', '?', '#'].all (!Char.isAlphanum ·) = true := by decide
      have hd := List.all_eq_true.mp hd c hm
      simp [h] at hd
    simp [isForeign, hn, hs]
  · simpa using List.all_eq_true.mp hf c h

theorem isValidIpv6_chars {v : List Char} (h : isValidIpv6 v = true) (hc : c ∈ v) : isHostChar c = true := by
  simp only [isValidIpv6] at h
  split at h
  case isTrue  => contradiction
  case isFalse =>
    split at h
    case isTrue  => contradiction
    case isFalse ha =>
      simp only [List.any_eq_true, not_exists, not_and, Bool.not_eq_true', Bool.not_eq_false] at ha
      have hx := ha c hc
      simp only [Bool.or_eq_true, decide_eq_true_eq] at hx
      obtain (hx | rfl) | rfl := hx
      · exact isHostChar_of_isHex hx
      · decide
      · decide

theorem isValidHostname_chars {v : List Char} (h : isValidHostname v = true) (hc : c ∈ v) : isHostChar c = true := by
  simp only [isValidHostname] at h
  split at h
  case isTrue  => contradiction
  case isFalse =>
    split at h
    case isTrue  => contradiction
    case isFalse =>
      split at h
      case isTrue     => contradiction
      case isFalse hl =>
        by_cases hd : c = '.'
        · rw [hd]
          decide
        · have hm : ∃ label ∈ v.splitOn '.', c ∈ label := by
            by_contra hn
            simp only [not_exists, not_and] at hn
            have hi := JsString.not_mem_intercalate hd hn
            rw [List.intercalate_splitOn] at hi
            exact hi hc
          obtain ⟨label, hlabel, hc⟩ := hm
          have ht : ∀ label ∈ v.splitOn '.', dnsLabelRe.test label = true := by simpa using hl
          have hx := Regex.chars_of_mem (Regex.test_iff.mp <| ht label hlabel) hc
          simp only [dnsLabelRe, Regex.chars, Regex.opt, Bool.or_eq_true, decide_eq_true_eq] at hx
          simp only [isHostChar, Bool.or_eq_true]
          obtain hx | (hx | rfl) | hx := hx
          · exact .inl hx
          · exact .inl hx
          · exact .inr <| by decide
          · exact .inl hx

theorem isValidHost_chars {v : List Char} (h : isValidHost v = true) (hc : c ∈ v) : isHostChar c = true := by
  rw [isValidHost] at h
  split at h
  case isTrue hb =>
    simp only [Bool.and_eq_true, decide_eq_true_eq] at hb
    obtain ⟨t, rfl⟩ : ∃ t, v = '[' :: t := by
      cases v <;> simp_all
    obtain rfl | ⟨t, x, rfl⟩ := List.eq_nil_or_concat t
    · exact absurd hb.2 <| by decide
    · have hx : x = ']' := by
        have hl := hb.2
        rw [List.concat_eq_append, ← List.cons_append, List.getLast?_concat] at hl
        exact Option.some.inj hl
      simp only [List.concat_eq_append, List.drop_succ_cons, List.drop_zero, List.dropLast_concat] at h
      simp only [List.concat_eq_append, List.mem_cons, List.mem_append, List.not_mem_nil, or_false] at hc
      obtain rfl | hc | rfl := hc
      · decide
      · exact isValidIpv6_chars h hc
      · rw [hx]
        decide
  case isFalse =>
    obtain h | h := Bool.or_eq_true_iff.mp h
    · obtain hd | rfl := (isValidIpv4_iff.mp h).chars hc
      · simp [isHostChar, Char.isAlphanum, hd]
      · decide
    · exact isValidHostname_chars h hc

theorem validateHost_chars (h : validateHost raw = none) (hc : c ∈ raw.toList) : isHostChar c = true := by
  have hv : (!isValidHost raw.toList) = false := firstOf_last h rfl
  exact isValidHost_chars (by simpa using hv) hc

theorem validatePort_chars (h : validatePort raw = none) (hc : c ∈ raw.toList) : c.isDigit = true := by
  have hv : (!isValidPort raw.toList) = false := firstOf_last h rfl
  have ht : (Regex.rep 1 4 <| .one Char.isDigit).test raw.toList = true := by
    by_contra ht
    simp [isValidPort, ht] at hv
  exact (Regex.mem_rep_one.mp <| Regex.test_iff.mp ht).2.2 c hc

theorem validateVersion_chars (h : validateVersion raw = none) (hc : c ∈ raw.toList) :
    c = 'v' ∨ c.isDigit = true := by
  have hv : (!versionRe.test raw.toList) = false := firstOf_last h rfl
  have hx := Regex.chars_of_mem (Regex.test_iff.mp <| by simpa using hv) hc
  simpa [versionRe, Regex.chars, Regex.char] using hx

theorem isHostChar_of_isDigit (h : c.isDigit = true) : isHostChar c = true := by
  simp [isHostChar, Char.isAlphanum, h]

end Checks

section Accepted

-- What a form without errors has passed.
structure Passed (lower : String → String) (form : JsObject) (existing : List JsObject) (editing_id : JsValue) :
    Prop where
  host     : validateHost (trim <| form.get "host") = none
  port     : validatePort (trim <| form.get "port") = none
  protocol : isValidProtocol (trim <| form.get "protocol") = true
  version  : validateVersion (trim <| form.get "version") = none
  name     : ∀ item ∈ others existing editing_id,
    lower (trim <| item.get "name") ≠ lower (trim <| form.get "name")
  endpoint : ∀ item ∈ others existing editing_id, lower (existingEndpoint item) ≠ lower (endpointOf form)

theorem of_checkName {items : List JsObject} {errors : InstanceFormErrors}
    (h : checkName lower form items errors = noErrors) :
    errors = noErrors ∧ ∀ item ∈ items, lower (trim <| item.get "name") ≠ lower (trim <| form.get "name") := by
  simp only [checkName] at h
  split at h
  case isTrue     => exact absurd (congrArg InstanceFormErrors.name h) <| by simp [noErrors]
  case isFalse hc =>
    rw [h] at hc
    simp only [Bool.and_eq_true, List.any_eq_true, decide_eq_true_eq, not_and, not_exists] at hc
    exact ⟨h, hc rfl⟩

theorem of_checkEndpoint {items : List JsObject} {errors : InstanceFormErrors}
    (h : checkEndpoint lower form items errors = noErrors) :
    errors = noErrors ∧ ∀ item ∈ items, lower (existingEndpoint item) ≠ lower (endpointOf form) := by
  simp only [checkEndpoint] at h
  split at h
  case isTrue =>
    split at h
    case h_1      => exact absurd (congrArg InstanceFormErrors.form h) <| by simp [noErrors]
    case h_2 hc => exact ⟨h, by simpa using hc⟩
  case isFalse hc =>
    rw [h] at hc
    exact absurd rfl hc

theorem passed_of_not_hasErrors (h : hasErrors (validateInstanceForm lower form existing editing_id) = false) :
    Passed lower form existing editing_id := by
  have h : validateInstanceForm lower form existing editing_id = noErrors := by
    simpa [hasErrors] using h
  obtain ⟨h, he⟩ := of_checkEndpoint h
  obtain ⟨h, hn⟩ := of_checkName h
  exact {
    host     := congrArg InstanceFormErrors.host h
    port     := congrArg InstanceFormErrors.port h
    protocol := by
      have hp := congrArg InstanceFormErrors.protocol h
      simpa [fieldErrors, noErrors] using hp
    version  := congrArg InstanceFormErrors.version h
    name     := hn
    endpoint := he }

def inputs : List String :=
  ["protocol", "host", "port", "version"]

-- What an accepted form is promised.
structure Unambiguous (lower : String → String) (form : JsObject) (existing : List JsObject) (editing_id : JsValue) :
    Prop where
  parsed   : parseEndpoint (endpointOf form) = some {
    protocol := trim <| form.get "protocol"
    host     := trim <| form.get "host"
    port     := trim <| form.get "port"
    version  := trim <| form.get "version" }
  plain    : ∀ field ∈ inputs, ∀ c ∈ (trim <| form.get field).toList, isForeign c = false
  name     : ∀ item ∈ existing, (item.get "id").strictEq editing_id = false →
    lower (trim <| item.get "name") ≠ lower (trim <| form.get "name")
  endpoint : ∀ item ∈ existing, (item.get "id").strictEq editing_id = false →
    lower (existingEndpoint item) ≠ lower (endpointOf form)

theorem protocol_chars (h : isValidProtocol protocol = true) (hc : c ∈ protocol.toList) :
    isForeign c = false ∧ c ≠ ':' := by
  have hp : (protocols.all fun p => p.toList.all fun c => !isForeign c && c ≠ ':') = true := by decide
  have hp := List.all_eq_true.mp hp protocol <| by simpa [isValidProtocol] using h
  simpa using List.all_eq_true.mp hp c hc

theorem Passed.plain (h : Passed lower form existing editing_id) :
    ∀ field ∈ inputs, ∀ c ∈ (trim <| form.get field).toList, isForeign c = false := by
  simp only [inputs, List.forall_mem_cons, List.not_mem_nil, false_implies, implies_true, and_true]
  refine ⟨fun c hc => (protocol_chars h.protocol hc).1, fun c hc => ?_, fun c hc => ?_, fun c hc => ?_⟩
  · exact isForeign_of_isHostChar <| validateHost_chars h.host hc
  · exact isForeign_of_isHostChar <| isHostChar_of_isDigit <| validatePort_chars h.port hc
  · obtain rfl | hd := validateVersion_chars h.version hc
    · decide
    · exact isForeign_of_isHostChar <| isHostChar_of_isDigit hd

theorem not_mem_of_plain {s : String} (h : ∀ c ∈ s.toList, isForeign c = false) : '/' ∉ s.toList :=
  fun hc => absurd (h '/' hc) <| by decide

-- An accepted form makes an endpoint that is read back to it and that no other instance has.
theorem unambiguous_of_accepted (h : hasErrors (validateInstanceForm lower form existing editing_id) = false) :
    Unambiguous lower form existing editing_id := by
  have hp := passed_of_not_hasErrors h
  have hplain := hp.plain
  have hothers {item : JsObject} (hi : item ∈ existing) (hid : (item.get "id").strictEq editing_id = false) :
      item ∈ others existing editing_id := by
    simpa [others, hid] using hi
  exact {
    parsed   := parseEndpoint_build (fun hc => (protocol_chars hp.protocol hc).2 rfl)
      (not_mem_of_plain <| hplain "host" <| by decide) (not_mem_of_plain <| hplain "port" <| by decide)
      fun hc => absurd (validatePort_chars hp.port hc) <| by decide
    plain    := hplain
    name     := fun item hi hid => hp.name item <| hothers hi hid
    endpoint := fun item hi hid => hp.endpoint item <| hothers hi hid }

def gatewayForm (host : String) : JsObject :=
  .ofList [("name", .string "gw-1"), ("cimage", .string "ghcr.io/loxilb-io/loxilb"), ("ctag", .string "latest"),
    ("host", .string host), ("port", .string "8091"), ("protocol", .string "https"), ("version", .string "v1"),
    ("description", .string "primary gateway")]

def listedInstance : JsObject :=
  .ofList [("id", .number 1), ("name", .string "existing"), ("protocol", .string "https"),
    ("host", .string "192.0.2.1"), ("port", .string "8091"), ("version", .string "v1")]

theorem unambiguous_gateway :
    Unambiguous JsString.toLowerCase (gatewayForm " [2001:db8::1]") [listedInstance] .undefined :=
  unambiguous_of_accepted <| by decide +kernel

end Accepted

end InstanceForm
