import LoxilbUi.Common
import LoxilbUi.Library.Ipv6Text

-- Which textual forms of an address the regular expressions of common.ts know.

namespace Common

open Regex Ipv6 Ipv6Text

variable {q u v w head : List Char} {ws : List (List Char)} {k m n : Nat}

section Octets

theorem octets_known : ∀ n < 256, ipv4Octet.test (Nat.toDigits 10 n) = true ∧
    embeddedOctet.test (Nat.toDigits 10 n) = true := by
  decide +kernel

theorem mem_ipv4Octet (h : n ≤ 255) : Nat.toDigits 10 n ∈ ipv4Octet.lang :=
  test_iff.mp (octets_known n <| by omega).1

theorem mem_embeddedOctet (h : n ≤ 255) : Nat.toDigits 10 n ∈ embeddedOctet.lang :=
  test_iff.mp (octets_known n <| by omega).2

theorem exists_octets (h : IsQuad q) : ∃ a b c d, (a ≤ 255 ∧ b ≤ 255 ∧ c ≤ 255 ∧ d ≤ 255) ∧
    q = Nat.toDigits 10 a ++ '.' ::
      (Nat.toDigits 10 b ++ '.' :: (Nat.toDigits 10 c ++ '.' :: Nat.toDigits 10 d)) := by
  obtain ⟨ns, hl, hb, rfl⟩ := h
  match ns, hl with
  | [a, b, c, d], _ =>
    simp only [List.forall_mem_cons, List.not_mem_nil, false_implies, implies_true, and_true] at hb
    exact ⟨a, b, c, d, hb, by simp [List.intercalate_cons_cons]⟩

theorem isValidIPv4_of_isQuad (h : IsQuad q) : isValidIPv4 q = true := by
  obtain ⟨a, b, c, d, ⟨ha, hb, hc, hd⟩, rfl⟩ := exists_octets h
  have hdot {s : Regex} {v : List Char} (h : v ∈ s.lang) : '.' :: v ∈ (seq (char '.') s).lang :=
    mem_seq.mpr ⟨['.'], mem_char.mpr rfl, v, h, rfl⟩
  have hcd := hdot <| mem_seq.mpr ⟨_, mem_ipv4Octet hc, _, hdot <| mem_ipv4Octet hd, rfl⟩
  have hbcd := hdot <| mem_seq.mpr ⟨_, mem_ipv4Octet hb, _, hcd, rfl⟩
  exact test_iff.mpr <| mem_seq.mpr ⟨_, mem_ipv4Octet ha, _, hbcd, rfl⟩

theorem mem_embeddedIpv4 (h : IsQuad q) : q ∈ embeddedIpv4.lang := by
  obtain ⟨a, b, c, d, ⟨ha, hb, hc, hd⟩, rfl⟩ := exists_octets h
  have hdot {n : Nat} (h : n ≤ 255) : Nat.toDigits 10 n ++ ['.'] ∈ (seq embeddedOctet <| char '.').lang :=
    mem_seq.mpr ⟨_, mem_embeddedOctet h, ['.'], mem_char.mpr rfl, rfl⟩
  refine mem_seq.mpr ⟨_, mem_rep.mpr ⟨[a, b, c].map (Nat.toDigits 10 · ++ ['.']), by simp, by simp, ?_, rfl⟩,
    _, mem_embeddedOctet hd, by simp⟩
  simpa using ⟨hdot ha, hdot hb, hdot hc⟩

end Octets

section Groups

theorem mem_hexGroup : w ∈ hexGroup.lang ↔ IsGroup w := by
  rw [hexGroup, mem_rep_one, IsGroup, ← List.length_pos_iff]
  rfl

theorem mem_hexColon : u ∈ hexColon.lang ↔ ∃ w, IsGroup w ∧ u = w ++ [':'] := by
  simp only [hexColon, mem_seq, mem_hexGroup, mem_char, exists_eq_left, eq_comm]

theorem mem_colonHex : u ∈ colonHex.lang ↔ ∃ w, IsGroup w ∧ u = ':' :: w := by
  simp only [colonHex, mem_seq, mem_hexGroup, mem_char, exists_eq_left, List.singleton_append, eq_comm]

theorem flatten_colon (h : ws ≠ []) : (ws.map (· ++ [':'])).flatten = joined ws ++ [':'] := by
  induction ws
  case nil => contradiction
  case cons w ws hi =>
    by_cases hn : ws = []
    · simp [hn, joined]
    · simp [hi hn, joined_cons hn]

theorem flatten_cons_colon (h : ws ≠ []) : (ws.map (':' :: ·)).flatten = ':' :: joined ws := by
  induction ws
  case nil => contradiction
  case cons w ws hi =>
    by_cases hn : ws = []
    · simp [hn, joined]
    · simp [hi hn, joined_cons hn]

-- One group or more with a colon behind each, or before each.
theorem mem_rep_hexColon (hn : 0 < n) : u ∈ (rep n m hexColon).lang ↔
    ∃ k ws, Groups k ws ∧ n ≤ k ∧ k ≤ n + m ∧ u = joined ws ++ [':'] := by
  rw [mem_rep_map fun _ => mem_hexColon]
  constructor
  case mp =>
    rintro ⟨ws, hl, hu, hg, rfl⟩
    exact ⟨ws.length, ws, ⟨rfl, hg⟩, hl, hu, flatten_colon <| List.ne_nil_of_length_pos <| by omega⟩
  case mpr =>
    rintro ⟨k, ws, hg, hl, hu, rfl⟩
    have hk := hg.length
    exact ⟨ws, by omega, by omega, hg.group, (flatten_colon <| List.ne_nil_of_length_pos <| by omega).symm⟩

theorem mem_rep_colonHex (hn : 0 < n) : u ∈ (rep n m colonHex).lang ↔
    ∃ k ws, Groups k ws ∧ n ≤ k ∧ k ≤ n + m ∧ u = ':' :: joined ws := by
  rw [mem_rep_map fun _ => mem_colonHex]
  constructor
  case mp =>
    rintro ⟨ws, hl, hu, hg, rfl⟩
    exact ⟨ws.length, ws, ⟨rfl, hg⟩, hl, hu, flatten_cons_colon <| List.ne_nil_of_length_pos <| by omega⟩
  case mpr =>
    rintro ⟨k, ws, hg, hl, hu, rfl⟩
    have hk := hg.length
    exact ⟨ws, by omega, by omega, hg.group, (flatten_cons_colon <| List.ne_nil_of_length_pos <| by omega).symm⟩

end Groups

section Forms

variable {l r : List (List Char)} {i j k' m' : Nat}

theorem isValidIPv6_of_form {s : Regex} (i : Nat) (h : v ∈ s.lang) (hi : ipv6Forms[i]? = some s) :
    isValidIPv6 v = true :=
  test_iff.mpr <| mem_anyOf.mpr ⟨s, List.mem_of_getElem? hi, h⟩

theorem isValidIPv6_of_full (h : Groups 8 ws) : isValidIPv6 (joined ws) = true := by
  obtain rfl | ⟨init, w, rfl⟩ := List.eq_nil_or_concat ws
  · exact absurd h.length <| by decide
  · have hl := h.length
    simp only [List.concat_eq_append, List.length_append, List.length_singleton] at hl
    have hi : init ≠ [] := List.ne_nil_of_length_pos <| by omega
    rw [List.concat_eq_append] at h ⊢
    rw [joined_concat hi, ← List.singleton_append, ← List.append_assoc]
    refine isValidIPv6_of_form 0 (mem_seq.mpr ⟨_, (mem_rep_hexColon <| by decide).mpr ?_, w, ?_, rfl⟩) rfl
    · exact ⟨init.length, init, ⟨rfl, fun v hv => h.group v <| by simp [hv]⟩, by omega, by omega, rfl⟩
    · exact mem_hexGroup.mpr <| h.group w <| by simp

-- Groups with a colon behind each, and more with one before each.
theorem mem_around {s t : Regex} (hs : joined l ++ [':'] ∈ s.lang) (ht : ':' :: joined r ∈ t.lang) :
    joined l ++ ':' :: ':' :: joined r ∈ (seq s t).lang :=
  mem_seq.mpr ⟨_, hs, _, ht, by simp⟩

theorem isValidIPv6_of_elided (hl : Groups k l) (hr : Groups m r) (h : k + m < 8) :
    isValidIPv6 (joined l ++ ':' :: ':' :: joined r) = true := by
  by_cases hk : k = 0
  case pos =>
    subst hk
    rw [hl.nil, joined_nil, List.nil_append]
    refine isValidIPv6_of_form 8 (mem_seq.mpr ⟨[':'], mem_char.mpr rfl, ':' :: joined r, mem_alt.mpr ?_, rfl⟩) rfl
    by_cases hm : m = 0
    · subst hm
      exact .inr <| mem_char.mpr <| by rw [hr.nil, joined_nil]
    · exact .inl <| (mem_rep_colonHex <| by decide).mpr ⟨m, r, hr, by omega, by omega, rfl⟩
  case neg =>
    have hleft {j : Nat} (hj : k ≤ 1 + j) : joined l ++ [':'] ∈ (rep 1 j hexColon).lang :=
      (mem_rep_hexColon <| by decide).mpr ⟨k, l, hl, by omega, hj, rfl⟩
    have hright {j : Nat} (hm : 0 < m) (hj : m ≤ 1 + j) : ':' :: joined r ∈ (rep 1 j colonHex).lang :=
      (mem_rep_colonHex <| by decide).mpr ⟨m, r, hr, by omega, hj, rfl⟩
    have hone {n : Nat} {ws : List (List Char)} (hg : Groups n ws) (hn : n = 1) :
        ∃ w, IsGroup w ∧ joined ws = w := by
      subst hn
      match ws, hg.length with
      | [w], _ => exact ⟨w, hg.group w <| .head _, by simp [joined]⟩
    -- The form is told by the number of groups behind the colons.
    obtain rfl | rfl | rfl | rfl | rfl | rfl | rfl :
        m = 0 ∨ m = 1 ∨ m = 2 ∨ m = 3 ∨ m = 4 ∨ m = 5 ∨ m = 6 := by omega
    · have hc : [':'] ∈ (char ':').lang := mem_char.mpr rfl
      exact isValidIPv6_of_form 1 (mem_seq.mpr ⟨_, hleft <| by omega, [':'], hc, by simp [hr.nil]⟩) rfl
    · obtain ⟨w, hw, he⟩ := hone hr rfl
      exact isValidIPv6_of_form 2 (mem_around (hleft <| by omega) <| mem_colonHex.mpr ⟨w, hw, by rw [he]⟩) rfl
    · exact isValidIPv6_of_form 3 (mem_around (hleft <| by omega) <| hright (by omega) <| by omega) rfl
    · exact isValidIPv6_of_form 4 (mem_around (hleft <| by omega) <| hright (by omega) <| by omega) rfl
    · exact isValidIPv6_of_form 5 (mem_around (hleft <| by omega) <| hright (by omega) <| by omega) rfl
    · exact isValidIPv6_of_form 6 (mem_around (hleft <| by omega) <| hright (by omega) <| by omega) rfl
    · obtain ⟨w, hw, he⟩ := hone hl <| by omega
      refine isValidIPv6_of_form 7 (mem_around (mem_hexColon.mpr ⟨w, hw, by rw [he]⟩) <| hright ?_ ?_) rfl
      · omega
      · omega

theorem isValidIPv6_of_body (h : Body 8 v) : isValidIPv6 v = true := by
  cases h
  case full h         => exact isValidIPv6_of_full h
  case elided hl hr h => exact isValidIPv6_of_elided hl hr h

end Forms

section Embedded

-- What the expression knows before the last colon of a text that ends in an IPv4 address.
inductive Known : List Char → Prop
  | elided : Known [':']
  | mapped : Known [':', ':', 'f', 'f', 'f', 'f']
  | translated {zeros : List Char} (hn : 1 ≤ zeros.length) (hm : zeros.length ≤ 4)
    (h : ∀ c ∈ zeros, c = '0') : Known ([':', ':', 'f', 'f', 'f', 'f', ':'] ++ zeros)
  | few {n : Nat} {ws : List (List Char)} (h : Groups n ws) (hn : 1 ≤ n) (hm : n ≤ 4) : Known (joined ws ++ [':'])

theorem mem_colons : u ∈ (text "::").lang ↔ u = [':', ':'] :=
  mem_text

theorem mem_ffff : u ∈ (text "ffff").lang ↔ u = ['f', 'f', 'f', 'f'] :=
  mem_text

theorem mem_zeros : u ∈ (opt <| seq (char ':') <| rep 1 3 <| char '0').lang ↔
    u = [] ∨ ∃ zeros : List Char,
      1 ≤ zeros.length ∧ zeros.length ≤ 4 ∧ (∀ c ∈ zeros, c = '0') ∧ u = ':' :: zeros := by
  rw [mem_opt, mem_seq]
  simp only [char, mem_rep_one, decide_eq_true_eq, mem_one, exists_eq_left]
  refine or_congr_right ⟨?mp, ?mpr⟩
  case mp =>
    rintro ⟨zeros, ⟨hn, hm, h⟩, rfl⟩
    exact ⟨zeros, hn, hm, h, rfl⟩
  case mpr =>
    rintro ⟨zeros, hn, hm, h, rfl⟩
    exact ⟨zeros, ⟨hn, hm, h⟩, rfl⟩

-- What may stand between the first two colons and the IPv4 address.
def mappedMark : Regex :=
  opt <| seq (text "ffff") <| seq (opt <| seq (char ':') <| rep 1 3 <| char '0') <| char ':'

theorem known_of_mappedForm (h : v ∈ mappedForm.lang) :
    ∃ head u, Known head ∧ u ∈ embeddedIpv4.lang ∧ v = head ++ ':' :: u := by
  obtain ⟨d, hd, _, h', rfl⟩ := mem_seq.mp h
  obtain ⟨m, hm, u, hu, rfl⟩ := mem_seq.mp h'
  obtain rfl := mem_colons.mp hd
  obtain rfl | hm := mem_opt.mp hm
  · exact ⟨_, u, .elided, hu, rfl⟩
  · obtain ⟨f, hf, _, hs, rfl⟩ := mem_seq.mp hm
    obtain ⟨z, hz, c, hc, rfl⟩ := mem_seq.mp hs
    obtain rfl := mem_ffff.mp hf
    obtain rfl := mem_char.mp hc
    obtain rfl | ⟨zeros, hl, hl', h0, rfl⟩ := mem_zeros.mp hz
    · exact ⟨_, u, .mapped, hu, rfl⟩
    · exact ⟨_, u, .translated hl hl' h0, hu, by simp⟩

theorem known_of_embeddedForm (h : v ∈ embeddedForm.lang) :
    ∃ head u, Known head ∧ u ∈ embeddedIpv4.lang ∧ v = head ++ ':' :: u := by
  obtain ⟨_, hl, _, h', rfl⟩ := mem_seq.mp h
  obtain ⟨k, ws, hg, hn, hm, rfl⟩ := (mem_rep_hexColon <| by decide).mp hl
  obtain ⟨c, hc, u, hu, rfl⟩ := mem_seq.mp h'
  obtain rfl := mem_char.mp hc
  exact ⟨_, u, .few hg hn hm, hu, by simp⟩

theorem isValidIPv6_of_mark {m : List Char} (hm : m ∈ mappedMark.lang) (hu : u ∈ embeddedIpv4.lang)
    (h : v = ':' :: ':' :: (m ++ u)) : isValidIPv6 v = true :=
  isValidIPv6_of_form 10 (mem_seq.mpr ⟨_, mem_colons.mpr rfl, _, mem_seq.mpr ⟨m, hm, u, hu, rfl⟩, h.symm⟩) rfl

theorem mem_mappedMark {z : List Char} (hz : z ∈ (opt <| seq (char ':') <| rep 1 3 <| char '0').lang) :
    ['f', 'f', 'f', 'f'] ++ (z ++ [':']) ∈ mappedMark.lang :=
  have hc := mem_seq.mpr ⟨z, hz, [':'], mem_char.mpr rfl, rfl⟩
  mem_opt.mpr <| .inr <| mem_seq.mpr ⟨_, mem_ffff.mpr rfl, _, hc, rfl⟩

theorem isValidIPv6_of_known (h : Known head) (hu : u ∈ embeddedIpv4.lang) :
    isValidIPv6 (head ++ ':' :: u) = true := by
  cases h
  case elided => exact isValidIPv6_of_mark (mem_opt.mpr <| .inl rfl) hu <| by simp
  case mapped => exact isValidIPv6_of_mark (mem_mappedMark <| mem_zeros.mpr <| .inl rfl) hu <| by simp
  case translated zeros hn hm h =>
    have hz := mem_mappedMark <| mem_zeros.mpr <| .inr ⟨zeros, hn, hm, h, rfl⟩
    exact isValidIPv6_of_mark hz hu <| by simp
  case few hg hn hm =>
    rw [List.append_assoc]
    have hl := (mem_rep_hexColon (n := 1) (m := 3) <| by decide).mpr ⟨_, _, hg, hn, hm, rfl⟩
    have hr := mem_seq.mpr ⟨[':'], mem_char.mpr rfl, u, hu, rfl⟩
    exact isValidIPv6_of_form 11 (mem_seq.mpr ⟨_, hl, _, hr, by simp⟩) rfl

-- With a point in it a text can only be of these forms.
theorem known_of_isValidIPv6 (h : isValidIPv6 v = true) (hd : '.' ∈ v) :
    ∃ head u, Known head ∧ u ∈ embeddedIpv4.lang ∧ v = head ++ ':' :: u := by
  obtain ⟨s, hs, h⟩ := mem_anyOf.mp <| test_iff.mp h
  have hc := chars_of_mem h hd
  simp only [ipv6Forms, List.mem_cons, List.not_mem_nil, or_false] at hs
  obtain rfl | rfl | rfl | rfl | rfl | rfl | rfl | rfl | rfl | rfl | rfl | rfl := hs
  case inr.inr.inr.inr.inr.inr.inr.inr.inr.inr.inl => exact known_of_mappedForm h
  case inr.inr.inr.inr.inr.inr.inr.inr.inr.inr.inr => exact known_of_embeddedForm h
  all_goals exact absurd hc <| by decide

theorem embeddedIpv4_colon (h : u ∈ embeddedIpv4.lang) : ':' ∉ u :=
  fun hc => absurd (chars_of_mem h hc) <| by decide

-- Of the texts of an address the expression knows those without points, and some with.
theorem isValidIPv6_iff (h : IsAddress v) : isValidIPv6 v = true ↔
    '.' ∉ v ∨ ∃ head q, IsQuad q ∧ Known head ∧ v = head ++ ':' :: q := by
  constructor
  case mp =>
    intro hv
    refine or_iff_not_imp_left.mpr fun hd => ?_
    obtain ⟨head, u, hk, hu, rfl⟩ := known_of_isValidIPv6 hv <| by simpa using hd
    obtain hb | ⟨head', q, hq, -, he⟩ := isAddress_iff.mp h
    · exact absurd hb.dot hd
    · obtain ⟨rfl, rfl⟩ := JsString.append_cons_inj (embeddedIpv4_colon hu) hq.colon he
      exact ⟨head, u, hq, hk, rfl⟩
  case mpr =>
    rintro (hd | ⟨head, q, hq, hk, rfl⟩)
    · obtain hb | ⟨head, q, hq, -, rfl⟩ := isAddress_iff.mp h
      · exact isValidIPv6_of_body hb
      · exact absurd (by simp [hq.dot]) hd
    · exact isValidIPv6_of_known hk <| mem_embeddedIpv4 hq

end Embedded

end Common
