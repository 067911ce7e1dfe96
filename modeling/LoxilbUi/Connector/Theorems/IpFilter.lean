import LoxilbUi.Connector.IpFilter
import LoxilbUi.Types.Theorems.AddressRegex
import LoxilbUi.Types.Theorems.NetworkPrefix

-- The forms that an address is accepted in, and those that get a length before they are sent.

namespace IpFilter

open NetworkPrefix Ipv6 Ipv6Text Common

variable {hostname : String → Option String} {parse : String → Option Address}
variable {data : JsValue} {cidr sent : String} {ip v q : List Char} {r : Reading} {bits : Nat}

-- The length of the prefix is written out.
def HasLength (s : String) : Prop :=
  ∃ ip ds, s.toList = ip ++ '/' :: ds ∧ '/' ∉ ip ∧ isDigits ds = true

-- What is sent has a length and is the network that was entered, and what the gateway then lists for
-- that network, with the rest as it was entered, confirms the entry.
structure SentAsEntered (hostname : String → Option String) (data : JsValue) (sent : String) : Prop where
  length  : HasLength sent
  network : networkPrefixKey hostname sent = keyOfValue hostname (data.get "cidr")
  applied : ∀ value rows row, parseIPFilterRows hostname value = .ok rows → row ∈ rows →
    keyOfValue hostname (row.get "cidr") = networkPrefixKey hostname sent →
    row.get "filterType" = data.get "filterType" → row.get "action" = data.get "action" →
    row.get "priority" = (data.get "priority").orElse (.number 100) → ipFilterApplied hostname data rows = true

-- The texts of which the length is known: one is written, or there is no IPv4 address at the end of an
-- IPv6 address, or what stands before it is one of the forms that are looked for.
def Completed (text : List Char) : Prop :=
  '/' ∈ text ∨ ':' ∉ text ∨ '.' ∉ text ∨ ∃ head q, IsQuad q ∧ Known head ∧ text = head ++ ':' :: q

section Entry

theorem isOctet_numeral {part : List Char} (h : isOctet part = true) :
    ∃ n ≤ 255, part = Nat.toDigits 10 n := by
  simp only [isOctet, Bool.and_eq_true, Bool.or_eq_true, decide_eq_true_eq, isDigits_iff] at h
  obtain ⟨rfl | ⟨⟨⟨hn, hd⟩, -⟩, hz⟩, hv⟩ := h
  · exact ⟨0, by decide, rfl⟩
  · exact ⟨_, hv, (toDigits_ofDigitChars hd hn <| .inl <| by simpa using hz).symm⟩

theorem isQuad_of_v4 {units : List Nat} (h : v4 v = some units) : IsQuad v := by
  simp only [v4] at h
  split at h
  case isTrue hc =>
    simp only [Bool.and_eq_true, decide_eq_true_eq, List.all_eq_true] at hc
    exact isQuad_iff.mpr ⟨hc.1, fun part hp => isOctet_numeral <| hc.2 part hp⟩
  case isFalse => simp at h

theorem slash_not_address (h : isValidIPAddress v = true) : '/' ∉ v := by
  intro hs
  rw [isValidIPAddress] at h
  split at h
  case isTrue  => simp at h
  case isFalse =>
    obtain h | h := Bool.or_eq_true _ _ |>.mp h
    · exact absurd (Regex.chars_of_mem (Regex.test_iff.mp h) hs) <| by decide
    · exact absurd (Regex.chars_of_mem (Regex.test_iff.mp h) hs) <| by decide

theorem isValidIPAddress_of_quad (h : IsQuad v) : isValidIPAddress v = true := by
  simp [isValidIPAddress, h.ne_nil, isValidIPv4_of_isQuad h]

-- An address with a colon is not taken for an IPv4 address.
theorem isValidIPAddress_colon (h : ':' ∈ v) : isValidIPAddress v = isValidIPv6 v := by
  have h4 : isValidIPv4 v = false := Bool.eq_false_iff.mpr fun h4 =>
    absurd (Regex.chars_of_mem (Regex.test_iff.mp h4) h) <| by decide
  rw [isValidIPAddress, if_neg <| List.ne_nil_of_mem h, h4, Bool.false_or]

-- The length that is put behind an address is that of the whole.
theorem readPrefix_append {ds : String} (ht : JsString.trim cidr = cidr) (hn : '/' ∉ cidr.toList)
    (hr : readAddress hostname cidr.toList = some r) (hne : cidr ≠ "") (hd : isDigits ds.toList = true)
    (hb : JsString.trim ("/" ++ ds) = "/" ++ ds) (hv : Nat.ofDigitChars 10 ds.toList 0 = r.units.length * r.width) :
    readPrefix hostname (cidr ++ ("/" ++ ds)) = some (r, r.units.length * r.width) := by
  refine readPrefix_iff.mpr ⟨cidr.toList, '/' :: ds.toList, ?_, hn, hr, .inr ⟨_, rfl, hd, hv, Nat.le_refl _⟩⟩
  rw [JsString.trim_append ht hb hne <| by simp [← String.toList_inj]]
  simp

end Entry

section Sent

theorem networkPrefixKey_trim : networkPrefixKey hostname (JsString.trim cidr) = networkPrefixKey hostname cidr := by
  rw [networkPrefixKey, networkPrefixKey, readPrefix, readPrefix, JsString.trim_trim]

@[simp]
theorem trimmed_string : trimmed (.string cidr) = JsString.trim cidr := by
  rw [trimmed]

theorem readPrefix_empty : readPrefix hostname "" = none :=
  rfl

theorem string_of_trimmed {value : JsValue} (h : readPrefix hostname (trimmed value) = some (r, bits)) :
    ∃ cidr, value = .string cidr := by
  cases value
  case string cidr => exact ⟨cidr, rfl⟩
  all_goals
    rw [trimmed, readPrefix_empty] at h
    · contradiction
    · simp

-- A valid entry holds a text, which is read.
theorem validIPFilterConfig_inv (h : validIPFilterConfig hostname data = true) :
    ∃ cidr r bits, data.get "cidr" = .string cidr ∧ readPrefix hostname (JsString.trim cidr) = some (r, bits) := by
  simp only [validIPFilterConfig, Bool.and_eq_true] at h
  obtain ⟨key, hk⟩ := Option.isSome_iff_exists.mp h.1.1.1
  obtain ⟨⟨r, bits⟩, hr, -⟩ := Option.map_eq_some_iff.mp hk
  obtain ⟨cidr, hc⟩ := string_of_trimmed hr
  rw [hc, trimmed_string] at hr
  exact ⟨cidr, r, bits, hc, hr⟩

theorem validIPFilterConfig_zone (h : validIPFilterConfig hostname data = true) :
    data.get "zone" = .undefined ∨ data.get "zone" = .number 0 := by
  simp only [validIPFilterConfig, Bool.and_eq_true, Bool.or_eq_true] at h
  exact h.1.1.2.imp JsValue.strictEq_inv JsValue.strictEq_inv

theorem validIPFilterConfig_pair (h : validIPFilterConfig hostname data = true) :
    (∃ s, data.get "filterType" = .string s) ∧ ∃ s, data.get "action" = .string s := by
  simp only [validIPFilterConfig, Bool.and_eq_true, Bool.or_eq_true] at h
  obtain ⟨hf, ha⟩ | ⟨hf, ha⟩ := h.2
  · exact ⟨⟨_, JsValue.strictEq_inv hf⟩, _, JsValue.strictEq_inv ha⟩
  · exact ⟨⟨_, JsValue.strictEq_inv hf⟩, _, JsValue.strictEq_inv ha⟩

theorem validIPFilterConfig_priority (h : validIPFilterConfig hostname data = true) :
    data.get "priority" = .undefined ∨ ∃ n, data.get "priority" = .number n ∧ n ≠ .nan := by
  simp only [validIPFilterConfig, Bool.and_eq_true, Bool.or_eq_true] at h
  refine h.1.2.imp JsValue.strictEq_inv fun hi => ?_
  match hp : data.get "priority" with
  | .number n =>
    rw [hp, isIntegerIn] at hi
    refine ⟨n, rfl, ?_⟩
    rintro rfl
    simp [JsNumber.isInteger] at hi
  | .undefined | .null | .bool _ | .string _ | .array _ | .object _ => simp [hp, isIntegerIn] at hi

theorem readAddress_quad (h : readAddress hostname ip = some r) (hc : ':' ∉ ip) :
    IsQuad ip ∧ r.units.length * r.width = 32 := by
  rw [readAddress, if_neg hc] at h
  obtain ⟨units, hv, rfl⟩ := Option.map_eq_some_iff.mp h
  obtain ⟨octets, hl, -, -, rfl⟩ := v4_inv hv
  exact ⟨isQuad_of_v4 hv, by simp [hl]⟩

theorem readAddress_colon (hp : CanonicalText hostname parse) (h : readAddress hostname ip = some r) (hc : ':' ∈ ip) :
    (∃ address, parse (.ofList ip) = some address) ∧ r.units.length * r.width = 128 := by
  obtain ⟨ha, -⟩ := readAddress_inv hp h
  cases ha
  case v4 ho           => exact absurd hc <| colon_not_mem ho
  case v6 address _ ha => exact ⟨⟨address, ha⟩, by simp [address.length]⟩

theorem toHostCidr_of_not_valid (h : isValidIPAddress (JsString.trim cidr).toList = false) :
    toHostCidr cidr = JsString.trim cidr := by
  simp [toHostCidr, h]

theorem not_hasLength (h : '/' ∉ sent.toList) : ¬HasLength sent := by
  rintro ⟨ip, ds, ht, -, -⟩
  exact h <| by simp [ht]

-- An address that is known is sent with the length of the whole, which it has been read with.
theorem toHostCidr_of_valid (hv : isValidIPAddress (JsString.trim cidr).toList = true)
    (hr : readAddress hostname (JsString.trim cidr).toList = some r)
    (hw : r.units.length * r.width = if ':' ∈ (JsString.trim cidr).toList then 128 else 32) :
    HasLength (toHostCidr cidr) ∧ networkPrefixKey hostname (toHostCidr cidr) = networkPrefixKey hostname cidr := by
  have hs := slash_not_address hv
  have hn : JsString.trim cidr ≠ "" := by
    rintro he
    rw [he] at hv
    exact absurd hv <| by decide
  have hi : readPrefix hostname (JsString.trim cidr) = some (r, r.units.length * r.width) :=
    readPrefix_iff.mpr ⟨_, [], by rw [JsString.trim_trim, List.append_nil], hs, hr, .inl ⟨rfl, rfl⟩⟩
  obtain ⟨ds, hd, hb, hz, he⟩ : ∃ ds : String, isDigits ds.toList = true ∧
      JsString.trim ("/" ++ ds) = "/" ++ ds ∧ Nat.ofDigitChars 10 ds.toList 0 = r.units.length * r.width ∧
      toHostCidr cidr = JsString.trim cidr ++ ("/" ++ ds) := by
    by_cases hc : ':' ∈ (JsString.trim cidr).toList
    · exact ⟨"128", by decide, by decide, by rw [hw, if_pos hc]; decide, by simp [toHostCidr, hv, hc]⟩
    · exact ⟨"32", by decide, by decide, by rw [hw, if_neg hc]; decide, by simp [toHostCidr, hv, hc]⟩
  have hk := readPrefix_append JsString.trim_trim hs hr hn hd hb hz
  rw [he]
  refine ⟨⟨_, ds.toList, by simp, hs, hd⟩, ?_⟩
  rw [networkPrefixKey, hk, ← networkPrefixKey_trim, networkPrefixKey, hi]

theorem completed_iff (h : IsAddress v) (hs : '/' ∉ v) (hc : ':' ∈ v) : Completed v ↔ isValidIPAddress v = true := by
  rw [isValidIPAddress_colon hc, isValidIPv6_iff h]
  simp [Completed, hs, hc]

-- The key of an entry is that of what is sent for it, and only an address whose form is not known is
-- sent without a length.
theorem toHostCidr_spec (hp : CanonicalText hostname parse)
    (hparse : ∀ ip address, parse ip = some address → IsAddress ip.toList)
    (h : readPrefix hostname (JsString.trim cidr) = some (r, bits)) :
    networkPrefixKey hostname (toHostCidr cidr) = networkPrefixKey hostname cidr ∧
      (HasLength (toHostCidr cidr) ↔ Completed (JsString.trim cidr).toList) := by
  obtain ⟨ip, rest, ht, hs, hr, hl⟩ := readPrefix_iff.mp h
  rw [JsString.trim_trim] at ht
  obtain ⟨rfl, rfl⟩ | ⟨ds, rfl, hd, -, -⟩ := hl
  case inr =>
    have hm : '/' ∈ (JsString.trim cidr).toList := by simp [ht]
    rw [toHostCidr_of_not_valid <| Bool.eq_false_iff.mpr fun hv => slash_not_address hv hm]
    exact ⟨networkPrefixKey_trim, iff_of_true ⟨ip, ds, ht, hs, hd⟩ <| .inl hm⟩
  case inl =>
    rw [List.append_nil] at ht
    subst ht
    by_cases hc : ':' ∈ (JsString.trim cidr).toList
    case neg =>
      obtain ⟨hq, hw⟩ := readAddress_quad hr hc
      obtain ⟨hl, hk⟩ := toHostCidr_of_valid (isValidIPAddress_of_quad hq) hr <| by rw [hw, if_neg hc]
      exact ⟨hk, iff_of_true hl <| .inr <| .inl hc⟩
    case pos =>
      obtain ⟨⟨address, ha⟩, hw⟩ := readAddress_colon hp hr hc
      have hi := hparse _ _ ha
      rw [String.toList_ofList] at hi
      rw [completed_iff hi hs hc]
      by_cases hv : isValidIPAddress (JsString.trim cidr).toList = true
      case pos =>
        obtain ⟨hl, hk⟩ := toHostCidr_of_valid hv hr <| by rw [hw, if_pos hc]
        exact ⟨hk, iff_of_true hl hv⟩
      case neg =>
        rw [toHostCidr_of_not_valid <| by simpa using hv]
        exact ⟨networkPrefixKey_trim, iff_of_false (not_hasLength hs) hv⟩

end Sent

section Applied

theorem valid_of_parsed {value : JsValue} {rows : List JsValue} {row : JsValue}
    (h : parseIPFilterRows hostname value = .ok rows) (hr : row ∈ rows) : validIPFilterConfig hostname row = true := by
  cases value
  case null =>
    obtain rfl := Except.ok.inj h
    contradiction
  case array items =>
    rw [parseIPFilterRows] at h
    split at h
    case isTrue hv =>
      obtain rfl := Except.ok.inj h
      have hv := List.all_eq_true.mp hv row hr
      simp only [validRow, Bool.and_eq_true] at hv
      exact hv.1.1.2
    case isFalse => simp at h
  all_goals simp [parseIPFilterRows] at h

theorem zone_orElse (h : validIPFilterConfig hostname data = true) :
    (data.get "zone").orElse (.number 0) = .number 0 := by
  obtain h | h := validIPFilterConfig_zone h
  · simp [h, JsValue.orElse, JsValue.isNil]
  · simp [h, JsValue.orElse, JsValue.isNil]

theorem priority_orElse (h : validIPFilterConfig hostname data = true) :
    ∃ n, (data.get "priority").orElse (.number 100) = .number n ∧ n ≠ .nan := by
  obtain h | ⟨n, h, hn⟩ := validIPFilterConfig_priority h
  · exact ⟨100, by simp [h, JsValue.orElse, JsValue.isNil], by rintro ⟨⟩⟩
  · exact ⟨n, by simp [h, JsValue.orElse, JsValue.isNil], hn⟩

-- A row of the entry's network, filter type, action and priority confirms it.
theorem applied_of_row {rows : List JsValue} {row : JsValue} (h : validIPFilterConfig hostname data = true)
    (hv : validIPFilterConfig hostname row = true) (hr : row ∈ rows)
    (hk : keyOfValue hostname (row.get "cidr") = keyOfValue hostname (data.get "cidr"))
    (hf : row.get "filterType" = data.get "filterType") (ha : row.get "action" = data.get "action")
    (hp : row.get "priority" = (data.get "priority").orElse (.number 100)) :
    ipFilterApplied hostname data rows = true := by
  obtain ⟨⟨f, hf'⟩, a, ha'⟩ := validIPFilterConfig_pair h
  obtain ⟨n, hn, hnan⟩ := priority_orElse h
  have hz := (zone_orElse hv).trans (zone_orElse h).symm
  have hi : sameIdentity hostname row data = true := by
    simp [sameIdentity, hf, hf', hk, hz, zone_orElse h, JsValue.strictEq, JsNumber.strictEq_iff]
  have hrow : (row.get "priority").orElse (.number 0) = .number n := by
    rw [hp, hn]
    rfl
  refine List.any_eq_true.mpr ⟨row, hr, ?_⟩
  rw [hi, ha, ha', hrow, hn]
  simp [JsValue.strictEq, JsNumber.strictEq_iff, hnan]

theorem payload_cidr : (payload data cidr).get "cidr" = .string (toHostCidr cidr) :=
  rfl

theorem requestCreate_of_valid (h : validIPFilterConfig hostname data = true) (hc : data.get "cidr" = .string cidr) :
    requestCreateIpfilterRule hostname data = .ok (payload data cidr) := by
  rw [requestCreateIpfilterRule, hc]
  simp [h]

-- Every valid entry is sent as the network that was entered, with its length just if the form of the
-- address is known to the check that the length is put behind.
theorem sentAsEntered_iff (hp : CanonicalText hostname parse)
    (hparse : ∀ ip address, parse ip = some address → IsAddress ip.toList)
    (h : validIPFilterConfig hostname data = true) :
    (∃ body sent, requestCreateIpfilterRule hostname data = .ok body ∧ body.get "cidr" = .string sent ∧
      SentAsEntered hostname data sent) ↔ Completed (trimmed <| data.get "cidr").toList := by
  obtain ⟨cidr, r, bits, hc, hr⟩ := validIPFilterConfig_inv h
  obtain ⟨hk, hl⟩ := toHostCidr_spec hp hparse hr
  have hsent := requestCreate_of_valid h hc
  rw [hc, trimmed_string, ← hl]
  constructor
  case mp =>
    rintro ⟨body, sent, hb, hs, he⟩
    obtain rfl := Except.ok.inj <| hsent.symm.trans hb
    obtain rfl := JsValue.string.inj <| payload_cidr.symm.trans hs
    exact he.length
  case mpr =>
    intro hlen
    refine ⟨_, _, hsent, rfl, hlen, hc ▸ hk, ?_⟩
    intro value rows row hv hm hrow hf ha hpr
    have hrow : keyOfValue hostname (row.get "cidr") = keyOfValue hostname (data.get "cidr") := by
      rw [hrow, hk, hc, keyOfValue]
    exact applied_of_row h (valid_of_parsed hv hm) hm hrow hf ha hpr

def mapped : Address where
  units  := [0, 0, 0, 0, 0, 0xffff, 0x102, 0x304]
  length := rfl
  bound  := by decide

def parseMapped (ip : String) : Option Address :=
  if ip = "::ffff:1.2.3.4" ∨ ip = "::FFFF:1.2.3.4" then mapped else none

def mappedHostname (ip : String) : Option String :=
  if ip = "::ffff:1.2.3.4" ∨ ip = "::FFFF:1.2.3.4" then "[::ffff:102:304]" else none

def dropped (cidr : String) : JsValue :=
  .object [("filterType", .string "blacklist"), ("cidr", .string cidr), ("action", .string "drop")]

theorem mapped_canonical : CanonicalText mappedHostname parseMapped := by
  intro ip _
  rw [mappedHostname, parseMapped]
  split
  · decide
  · rfl

theorem mapped_addresses (ip : String) (address : Address) (h : parseMapped ip = some address) :
    IsAddress ip.toList := by
  have hq : IsQuad "1.2.3.4".toList := ⟨[1, 2, 3, 4], rfl, by decide, by decide⟩
  have ha {w : String} (hw : IsGroup w.toList) : IsAddress (':' :: ':' :: joined [w.toList, "1.2.3.4".toList]) :=
    have hg : Groups 1 [w.toList] := ⟨rfl, by simpa using hw⟩
    .elided (m := 0) groups_nil (.quad (n := 1) hg hq) <| by decide
  rw [parseMapped] at h
  split at h
  case isTrue he =>
    obtain rfl | rfl := he
    · exact ha (w := "ffff") ⟨by decide, by decide, List.all_eq_true.mp <| by decide⟩
    · exact ha (w := "FFFF") ⟨by decide, by decide, List.all_eq_true.mp <| by decide⟩
  case isFalse => simp at h

theorem sentAsEntered_mapped : ∃ body sent,
    requestCreateIpfilterRule mappedHostname (dropped " ::ffff:1.2.3.4") = .ok body ∧ body.get "cidr" = .string sent ∧
      SentAsEntered mappedHostname (dropped " ::ffff:1.2.3.4") sent :=
  (sentAsEntered_iff mapped_canonical mapped_addresses <| by decide +kernel).mpr <| .inr <| .inr <| .inr
    ⟨"::ffff".toList, "1.2.3.4".toList, ⟨[1, 2, 3, 4], rfl, by decide, by decide⟩, .mapped, by decide⟩

theorem not_sentAsEntered : ¬∀ (hostname : String → Option String) (parse : String → Option Address) (data : JsValue),
    CanonicalText hostname parse → (∀ ip address, parse ip = some address → IsAddress ip.toList) →
    validIPFilterConfig hostname data = true → ∃ body sent, requestCreateIpfilterRule hostname data = .ok body ∧
      body.get "cidr" = .string sent ∧ SentAsEntered hostname data sent := by
  intro h
  obtain ⟨body, sent, hb, hs, he⟩ :=
    h _ _ (dropped "::FFFF:1.2.3.4") mapped_canonical mapped_addresses <| by decide +kernel
  have hsent : sent = "::FFFF:1.2.3.4" := by
    have hv : validIPFilterConfig mappedHostname (dropped "::FFFF:1.2.3.4") = true := by decide +kernel
    have hn : toHostCidr "::FFFF:1.2.3.4" = "::FFFF:1.2.3.4" := by decide +kernel
    obtain rfl := Except.ok.inj <| (requestCreate_of_valid hv rfl).symm.trans hb
    rw [← hn]
    exact (JsValue.string.inj <| payload_cidr.symm.trans hs).symm
  exact not_hasLength (hsent ▸ by decide) he.length

end Applied

end IpFilter
