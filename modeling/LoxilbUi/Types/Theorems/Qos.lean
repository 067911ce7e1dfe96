import LoxilbUi.Library.SafeInteger
import LoxilbUi.Types.Qos
import Mathlib.Tactic.Positivity

-- A key says which rule it was made of, up to brackets and the case of letters, and what is read from a
-- key makes a key that reads the same.

namespace Qos

open Pattern Common

variable {v ds : List Char} {ip t : String} {port : JsNumber} {n : Nat} {protocol : RuleProtocol}

section Address

theorem isValid_or (h : isValidIPAddress v = true) : isValidIPv4 v = true ∨ isValidIPv6 v = true := by
  rw [isValidIPAddress] at h
  split at h
  case isTrue  => contradiction
  case isFalse => simpa using h

theorem isValid_ne_nil (h : isValidIPAddress v = true) : v ≠ [] := by
  rintro rfl
  simp [isValidIPAddress] at h

theorem isValid_no_bracket (h : isValidIPAddress v = true) : '[' ∉ v ∧ ']' ∉ v := by
  obtain h | h := isValid_or h
  all_goals
    have h := Regex.test_iff.mp h
    exact ⟨fun hm => absurd (Regex.chars_of_mem h hm) (by decide),
      fun hm => absurd (Regex.chars_of_mem h hm) (by decide)⟩

end Address

section Numbers

theorem lt_finite {a b : Decimal} : JsNumber.lt (.finite a) (.finite b) = false ↔ b.value ≤ a.value := by
  rw [JsNumber.lt, ← Bool.not_eq_true, Decimal.lt_iff, not_lt]

theorem isValidPort_finite {d : Decimal} :
    isValidPort (.finite d) = true ↔ (0 ≤ d.value ∧ d.value ≤ 65535) ∧ 0 ≤ d.exponent := by
  have hl : JsNumber.lt (.finite d) 0 = false ↔ 0 ≤ d.value := by
    rw [← Int.cast_zero, ← Decimal.value_ofInt]
    exact lt_finite
  have hu : JsNumber.lt 65535 (.finite d) = false ↔ d.value ≤ 65535 := by
    rw [← Int.cast_ofNat, ← Decimal.value_ofInt]
    exact lt_finite
  simp [isValidPort, hl, hu, JsNumber.isInteger]

-- A number without a fraction, from the first port to the last.
theorem exists_of_isValidPort (h : isValidPort port = true) (hz : port.strictEq 0 = false) :
    ∃ n, (1 ≤ n ∧ n ≤ 65535) ∧ port = .ofNat n := by
  cases port
  case nan      => contradiction
  case infinity => simp [isValidPort, JsNumber.isInteger] at h
  case finite d =>
    obtain ⟨⟨hl, hu⟩, hi⟩ := isValidPort_finite.mp h
    obtain ⟨e, he⟩ := Int.eq_ofNat_of_zero_le hi
    have hv : d.value = ((d.mantissa * 10 ^ e : Int) : ℚ) := by
      rw [Decimal.value, he]
      push_cast
      rfl
    rw [hv] at hl hu
    obtain ⟨n, hn⟩ := Int.eq_ofNat_of_zero_le <| Int.cast_nonneg_iff.mp hl
    have hp : d = .ofInt n := Decimal.eq_of_value_eq <| by rw [hv, hn, Decimal.value_ofInt]
    have hu : n ≤ 65535 := by
      rw [hn] at hu
      exact_mod_cast hu
    obtain rfl | h0 := Nat.eq_zero_or_pos n
    · have hz' : (JsNumber.finite d).strictEq 0 = true := JsNumber.strictEq_zero_iff.mpr <| congrArg _ hp
      rw [hz'] at hz
      contradiction
    · exact ⟨n, ⟨h0, hu⟩, congrArg _ hp⟩

theorem isValidPort_ofNat (h : n ≤ 65535) : isValidPort (.ofNat n) = true := by
  refine isValidPort_finite.mpr ⟨?_, JsNumber.exponent_ofInt_nonneg⟩
  rw [Decimal.value_ofInt]
  exact ⟨by positivity, by exact_mod_cast h⟩

theorem ofNat_ne_zero (h : 1 ≤ n) : (JsNumber.ofNat n).strictEq 0 = false := by
  rw [← Bool.not_eq_true, JsNumber.strictEq_zero_iff]
  intro hz
  have hn : n = 0 := JsNumber.ofNat_injective hz
  omega

theorem toText_port (h : n ≤ 65535) : (JsNumber.ofNat n).toText.toList = Nat.toDigits 10 n :=
  JsNumber.toText_ofNat <| Nat.lt_of_le_of_lt h <| by decide

theorem ofDigits_port (h : n ≤ 65535) : JsNumber.ofDigits (Nat.toDigits 10 n) = .ofNat n := by
  rw [← toText_port h]
  exact JsNumber.ofDigits_toText <| h.trans <| by decide

end Numbers

section Match

-- What stands in a key behind the address.
def suffix (n : Nat) (protocol : RuleProtocol) : List Char :=
  ':' :: (Nat.toDigits 10 n ++ ':' :: protocol.text.toList)

theorem takes_suffix : Takes portAndProtocol (suffix n protocol) []
    [(2, Nat.toDigits 10 n), (3, protocol.text.toList)] := by
  have hd := Decimal.allDigits_toDigits n
  have hp : protocol.text.toList ≠ [] ∧ ∀ c ∈ protocol.text.toList, c.isAlpha = true := by
    cases protocol <;> exact ⟨by decide, List.all_eq_true.mp (by decide)⟩
  have ht := (takes_plus (t := []) hp.left hp.right (by simp)).group (n := 3)
  have hn := (takes_plus (t := [':'] ++ protocol.text.toList ++ []) Nat.toDigits_ne_nil hd (by simp)).group (n := 2)
  exact takes_char.seq <| hn.seq <| takes_char.seq ht

-- What stands in brackets ends where the first of them is closed.
theorem takes_bracketedAddress (hn : v ≠ []) (h : ']' ∉ v) :
    Takes bracketedAddress ('[' :: (v ++ [']'])) ds [(1, v)] := by
  have hv : ∀ c ∈ v, decide (c ≠ ']') = true := fun c hc => decide_eq_true fun he => h <| he ▸ hc
  have ht := (takes_plus (t := [']'] ++ ds) hn hv (by simp)).group (n := 1)
  exact takes_char.seq <| ht.seq takes_char

def groups (v : List Char) (n : Nat) (protocol : RuleProtocol) : List (Nat × List Char) :=
  [(1, v), (2, Nat.toDigits 10 n), (3, protocol.text.toList)]

theorem matchWhole_bracketed (hn : v ≠ []) (h : ']' ∉ v) :
    matchWhole bracketed ('[' :: (v ++ [']']) ++ suffix n protocol) =
      some ⟨groups v n protocol, '[' :: (v ++ [']']) ++ suffix n protocol, []⟩ :=
  ((takes_bracketedAddress hn h).seq takes_suffix).matchWhole

theorem matchWhole_legacyIPv4 (hn : v ≠ []) (h : ∀ c ∈ v, c ∉ [':', '[', ']']) :
    matchWhole legacyIPv4 (v ++ suffix n protocol) =
      some ⟨groups v n protocol, v ++ suffix n protocol, []⟩ := by
  have hv : ∀ c ∈ v, decide (c ∉ [':', '[', ']']) = true := fun c hc => decide_eq_true <| h c hc
  have ht := (takes_plus (t := suffix n protocol ++ []) hn hv (by simp [suffix])).group (n := 1)
  exact (ht.seq takes_suffix).matchWhole

theorem head_of_bracketedAddress (h : ds ∈ bracketedAddress.lang) : '[' ∈ ds := by
  obtain ⟨_, hc, w, -, rfl⟩ := mem_seq.mp h
  rw [mem_char.mp hc]
  exact .head _

theorem matchWhole_bracketedAddress_eq_none (h : '[' ∉ v) : matchWhole bracketedAddress v = none :=
  matchWhole_eq_none_iff.mpr fun hv => h <| head_of_bracketedAddress hv

theorem suffix_no_bracket : '[' ∉ suffix n protocol := by
  have hd : '[' ∉ Nat.toDigits 10 n := fun hm => absurd (Decimal.allDigits_toDigits n _ hm) (by decide)
  have hp : '[' ∉ protocol.text.toList := by
    cases protocol <;> decide
  simp [suffix, hd, hp]

theorem matchWhole_bracketed_eq_none (h : '[' ∉ v) : matchWhole bracketed (v ++ suffix n protocol) = none := by
  rw [matchWhole_eq_none_iff]
  intro hv
  obtain ⟨u, hu, w, -, he⟩ := mem_seq.mp hv
  have hm : '[' ∈ v ++ suffix n protocol := he ▸ List.mem_append_left _ (head_of_bracketedAddress hu)
  exact (List.mem_append.mp hm).elim h suffix_no_bracket

end Match

section Key

theorem unbracketed_self (h : '[' ∉ ip.toList) : unbracketed ip = ip := by
  rw [unbracketed, matchWhole_bracketedAddress_eq_none h]

theorem unbracketed_brackets (hn : ip ≠ "") (h : ']' ∉ ip.toList) : unbracketed ("[" ++ ip ++ "]") = ip := by
  have hn : ip.toList ≠ [] := String.toList_eq_nil_iff.not.mpr hn
  have hm := (@takes_bracketedAddress _ [] hn h).matchWhole
  have ht : ("[" ++ ip ++ "]").toList = '[' :: (ip.toList ++ [']']) := by simp
  rw [unbracketed, ht, hm]
  exact String.ofList_toList

-- The key of a valid rule.
def keyOf (ip : String) (n : Nat) (protocol : RuleProtocol) : List Char :=
  (if ':' ∈ ip.toList then '[' :: (ip.toList ++ [']']) else ip.toList) ++ suffix n protocol

-- A rule at a valid address, in brackets or not, and a port.
structure ValidRule (args : RuleArguments) (ip : String) (n : Nat) (protocol : RuleProtocol) : Prop where
  address  : args.externalIP = ip ∨ args.externalIP = "[" ++ ip ++ "]"
  valid    : isValidIPAddress ip.toList = true
  port     : args.port = .ofNat n
  range    : 1 ≤ n ∧ n ≤ 65535
  protocol : JsString.toLowerCase args.protocol = protocol.text

variable {args args' : RuleArguments} {ip' : String} {n' : Nat} {protocol' : RuleProtocol} {r : RuleTarget}

theorem ValidRule.unbracketed (h : ValidRule args ip n protocol) : unbracketed args.externalIP = ip := by
  have ⟨ho, hc⟩ := isValid_no_bracket h.valid
  obtain ha | ha := h.address
  · rw [ha, unbracketed_self ho]
  · have hn : ip ≠ "" := String.toList_eq_nil_iff.not.mp <| isValid_ne_nil h.valid
    rw [ha, unbracketed_brackets hn hc]

theorem ValidRule.key (h : ValidRule args ip n protocol) :
    (buildQoSRuleTarget args).toList = keyOf ip n protocol := by
  rw [buildQoSRuleTarget, h.unbracketed, h.port, h.protocol, keyOf, suffix]
  simp only [String.toList_append, toText_port h.range.right]
  split <;> simp

theorem toLowerCase_text : JsString.toLowerCase protocol.text = protocol.text := by
  cases protocol <;> decide

theorem ofText?_lowered : RuleProtocol.ofText? (JsString.toLowerCase protocol.text) = some protocol := by
  cases protocol <;> decide

theorem parse_groups {found : Found} (hg : found.groups = groups ip.toList n protocol)
    (hv : isValidIPAddress ip.toList = true) (hn : 1 ≤ n ∧ n ≤ 65535)
    (hm : (matchWhole bracketed t.toList).or (matchWhole legacyIPv4 t.toList) = some found)
    (hb : (matchWhole bracketed t.toList).isSome = true ↔ ':' ∈ ip.toList) :
    parseQoSRuleTarget t = some ⟨ip, .ofNat n, protocol⟩ := by
  have h1 : found.get? 1 = some ip.toList := by simp [Found.get?, hg, groups]
  have h2 : found.get? 2 = some (Nat.toDigits 10 n) := by simp [Found.get?, hg, groups, List.lookup_cons]
  have h3 : found.get? 3 = some protocol.text.toList := by simp [Found.get?, hg, groups, List.lookup_cons]
  simp only [parseQoSRuleTarget, hm, h1, h2, h3, Option.getD_some, ofText?_lowered, ofDigits_port hn.right, hv,
    isValidPort_ofNat hn.right, ofNat_ne_zero hn.left, String.ofList_toList]
  simp [hb]

theorem parse_keyOf (ht : t.toList = keyOf ip n protocol) (hv : isValidIPAddress ip.toList = true)
    (hn : 1 ≤ n ∧ n ≤ 65535) : parseQoSRuleTarget t = some ⟨ip, .ofNat n, protocol⟩ := by
  have ⟨ho, hc⟩ := isValid_no_bracket hv
  have he := isValid_ne_nil hv
  rw [keyOf] at ht
  split at ht
  case isTrue h6 =>
    have hm := @matchWhole_bracketed _ n protocol he hc
    rw [← ht] at hm
    exact parse_groups rfl hv hn (by rw [hm, Option.some_or]) (by simp [hm, h6])
  case isFalse h4 =>
    have hb := @matchWhole_bracketed_eq_none _ n protocol ho
    have hl := @matchWhole_legacyIPv4 ip.toList n protocol he <| by
      rintro c hm hx
      simp only [List.mem_cons, List.not_mem_nil, or_false] at hx
      obtain rfl | rfl | rfl := hx <;> contradiction
    rw [← ht] at hb hl
    exact parse_groups rfl hv hn (by rw [hb, hl, Option.none_or]) (by simp [hb, h4])

theorem parse_build (h : ValidRule args ip n protocol) :
    parseQoSRuleTarget (buildQoSRuleTarget args) = some ⟨ip, .ofNat n, protocol⟩ :=
  parse_keyOf h.key h.valid h.range

-- What is read from a key, as the arguments of a rule.
def RuleTarget.arguments (r : RuleTarget) : RuleArguments :=
  ⟨r.externalIP, r.port, r.protocol.text⟩

-- Whatever a text looked like, what is read from it is a rule in the plain form.
theorem validRule_of_parse (h : parseQoSRuleTarget t = some r) :
    ∃ n, ValidRule r.arguments r.externalIP n r.protocol ∧ r.port = .ofNat n := by
  simp only [parseQoSRuleTarget] at h
  split at h
  case h_1 => contradiction
  case h_2 found _ =>
    generalize JsNumber.ofDigits ((found.get? 2).getD []) = port at h
    split at h
    case h_1 => contradiction
    case h_2 protocol _ =>
      split at h
      case isTrue => contradiction
      case isFalse hc =>
        split at h
        case isTrue => contradiction
        case isFalse =>
          obtain rfl := Option.some.inj h
          simp only [Bool.or_eq_true, Bool.not_eq_true', not_or, Bool.not_eq_true, Bool.not_eq_false] at hc
          obtain ⟨⟨hv, hp⟩, hz⟩ := hc
          obtain ⟨n, hn, hp⟩ := exists_of_isValidPort hp hz
          exact ⟨n, ⟨.inl rfl, by simpa using hv, hp, hn, toLowerCase_text⟩, hp⟩

theorem parse_build_of_parse (h : parseQoSRuleTarget t = some r) :
    parseQoSRuleTarget (buildQoSRuleTarget r.arguments) = some r := by
  obtain ⟨n, hr, hp⟩ := validRule_of_parse h
  rw [parse_build hr, ← hp]

theorem eq_of_build_eq (h : ValidRule args ip n protocol) (h' : ValidRule args' ip' n' protocol')
    (he : buildQoSRuleTarget args = buildQoSRuleTarget args') :
    ip = ip' ∧ n = n' ∧ protocol = protocol' := by
  have hp := parse_build h
  rw [he, parse_build h'] at hp
  obtain ⟨hi, hn, hp⟩ := RuleTarget.mk.inj <| Option.some.inj hp.symm
  exact ⟨hi, JsNumber.ofNat_injective hn, hp⟩

theorem keys_round_trip :
    (∀ args ip n protocol, ValidRule args ip n protocol →
      parseQoSRuleTarget (buildQoSRuleTarget args) = some ⟨ip, .ofNat n, protocol⟩) ∧
    (∀ args args' ip ip' n n' protocol protocol', ValidRule args ip n protocol →
      ValidRule args' ip' n' protocol' → buildQoSRuleTarget args = buildQoSRuleTarget args' →
      ip = ip' ∧ n = n' ∧ protocol = protocol') ∧
    ∀ t r, parseQoSRuleTarget t = some r → parseQoSRuleTarget (buildQoSRuleTarget r.arguments) = some r :=
  ⟨fun _ _ _ _ => parse_build, fun _ _ _ _ _ _ _ _ => eq_of_build_eq, fun _ _ => parse_build_of_parse⟩

-- A rule at an IPv6 address in brackets, and the key that is made of it.
def bracketedRule : RuleArguments :=
  ⟨"[2001:db8::20]", .ofNat 443, "UDP"⟩

theorem bracketedRule_valid : ValidRule bracketedRule "2001:db8::20" 443 .udp where
  address  := .inr <| by decide
  valid    := by decide +kernel
  port     := rfl
  range    := by decide
  protocol := by decide

theorem bracketedRule_round_trip :
    buildQoSRuleTarget bracketedRule = "[2001:db8::20]:443:udp" ∧
    parseQoSRuleTarget (buildQoSRuleTarget bracketedRule) = some ⟨"2001:db8::20", .ofNat 443, .udp⟩ ∧
    parseQoSRuleTarget "[2001:db8::20]:443:udp" = some ⟨"2001:db8::20", .ofNat 443, .udp⟩ := by
  have hb : buildQoSRuleTarget bracketedRule = "[2001:db8::20]:443:udp" := by decide
  have hp := keys_round_trip.left _ _ _ _ bracketedRule_valid
  exact ⟨hb, hp, hb ▸ hp⟩

end Key
end Qos
