import LoxilbUi.Components.InstanceFormLogic
import LoxilbUi.Library.Ipv6Text

-- Which texts the instance form takes for IPv6 addresses, and which of them are.

namespace InstanceForm

open Ipv6 Ipv6Text

variable {v q head tail text w : List Char} {ws l r : List (List Char)} {m n k : Nat}

section Quad

theorem octet_test {part : List Char} : (Regex.rep 1 2 <| .one Char.isDigit).test part = true ↔
    1 ≤ part.length ∧ part.length ≤ 3 ∧ ∀ c ∈ part, c.isDigit = true := by
  rw [Regex.test_iff, Regex.mem_rep_one]

theorem isIpv4Octet_iff : isIpv4Octet w = true ↔ ∃ n ≤ 255, w = Nat.toDigits 10 n := by
  constructor
  case mp =>
    intro h
    simp only [isIpv4Octet] at h
    split at h
    case isTrue  => contradiction
    case isFalse ht =>
      obtain ⟨hl, -, hd⟩ := octet_test.mp <| by simpa using ht
      split at h
      case isTrue     => contradiction
      case isFalse hz =>
        have hz : w.head? ≠ some '0' ∨ w.length = 1 := by
          by_cases hz' : w.head? = some '0'
          · exact .inr <| by simp [hz'] at hz; omega
          · exact .inl hz'
        exact ⟨_, by simpa using h, (toDigits_ofDigitChars hd (List.length_pos_iff.mp hl) hz).symm⟩
  case mpr =>
    rintro ⟨n, hn, rfl⟩
    have hlen : (Nat.toDigits 10 n).length ≤ 3 :=
      (Nat.length_toDigits_le_iff (by omega) (by omega)).mpr <| by omega
    have ht := octet_test.mpr ⟨List.length_pos_iff.mpr Nat.toDigits_ne_nil, hlen,
      fun c hc => Nat.isDigit_of_mem_toDigits (by omega) (by omega) hc⟩
    have hz : (Nat.toDigits 10 n).length ≤ 1 ∨ (Nat.toDigits 10 n).head? ≠ some '0' := by
      refine or_iff_not_imp_left.mpr fun hl hz => ?_
      by_cases h0 : n = 0
      · subst h0
        exact absurd (by decide) hl
      · exact toDigits_head h0 hz
    simpa [isIpv4Octet, ht, Nat.ofDigitChars_ten_toDigits, hn] using hz

theorem isValidIpv4_iff : isValidIpv4 q = true ↔ IsQuad q := by
  rw [isQuad_iff, isValidIpv4]
  simp only [ne_eq, ite_not, Bool.if_false_right, Bool.and_eq_true, decide_eq_true_eq, List.all_eq_true,
    isIpv4Octet_iff]

end Quad

section Code

-- The groups that are told apart from what they are cut out of.
theorem groupsOf_joined (hw : ∀ w ∈ ws, Word w) : groupsOf (joined ws) = ws := by
  by_cases h : ws = []
  · rw [h, joined_nil, groupsOf, if_pos rfl]
  · rw [groupsOf, if_neg <| joined_ne_nil hw h, splitOn_joined hw h]

theorem joined_groupsOf : joined (groupsOf text) = text := by
  rw [groupsOf]
  split
  case isTrue h  => rw [h, joined_nil]
  case isFalse   => exact List.intercalate_splitOn ':'

theorem group_test : (Regex.rep 1 3 <| .one isHex).test w = true ↔ IsGroup w := by
  rw [Regex.test_iff, Regex.mem_rep_one, IsGroup, ← List.length_pos_iff]
  rfl

theorem isGrouped_of_body (hk : k ≤ 8) (h : Body (8 - k) head) : isGrouped head k = true := by
  cases h
  case full ws h =>
    have hn : ¬[':', ':'] <:+: joined ws := by
      rw [double_infix_iff, splitDouble_joined h.words]
      simp
    have hg : ws.all (Regex.rep 1 3 <| .one isHex).test = true :=
      List.all_eq_true.mpr fun w hw => group_test.mpr <| h.group w hw
    have hl := h.length
    simp only [isGrouped, hn, decide_false, Bool.false_eq_true, if_false, groupsOf_joined h.words]
    simp only [groupsOf, if_true, List.append_nil, hg, Bool.true_and, decide_eq_true_eq]
    omega
  case elided l r m n hl hr h =>
    have hs : splitDouble (joined l ++ ':' :: ':' :: joined r) = [joined l, joined r] := by
      rw [splitDouble_elided hl.words, splitDouble_joined hr.words]
    have hn : [':', ':'] <:+: joined l ++ ':' :: ':' :: joined r := by
      rw [double_infix_iff, hs]
      simp
    have hg : (l ++ r).all (Regex.rep 1 3 <| .one isHex).test = true := by
      rw [List.all_append, Bool.and_eq_true]
      exact ⟨List.all_eq_true.mpr fun w hw => group_test.mpr <| hl.group w hw,
        List.all_eq_true.mpr fun w hw => group_test.mpr <| hr.group w hw⟩
    have hl' := hl.length
    have hr' := hr.length
    simp only [isGrouped, hn, decide_true, if_true, hs, groupsOf_joined hl.words, groupsOf_joined hr.words, hg,
      Bool.true_and, List.length_append, decide_eq_true_eq]
    omega

theorem body_of_isGrouped (hk : k ≤ 8) (hd : (splitDouble head).length ≤ 2) (h : isGrouped head k = true) :
    Body (8 - k) head := by
  have hi := intercalate_splitDouble head
  by_cases he : [':', ':'] <:+: head
  case neg =>
    simp only [isGrouped, he, decide_false, Bool.false_eq_true, if_false, Bool.and_eq_true] at h
    obtain ⟨hg, hl⟩ := h
    simp only [groupsOf, if_true, List.append_nil, decide_eq_true_eq] at hg hl
    have hgroups : Groups (8 - k) (groupsOf head) :=
      ⟨by rw [groupsOf]; omega, fun w hw => group_test.mp <| List.all_eq_true.mp hg w hw⟩
    have hb := Body.full hgroups
    rwa [joined_groupsOf] at hb
  case pos =>
    have hlt := double_infix_iff.mp he
    match hs : splitDouble head, hd, hlt with
    | [left, right], _, _ =>
      simp only [isGrouped, he, decide_true, if_true, hs, Bool.and_eq_true, decide_eq_true_eq, List.length_append] at h
      obtain ⟨hg, hl⟩ := h
      rw [List.all_append, Bool.and_eq_true] at hg
      have hb := Body.elided (n := 8 - k) (l := groupsOf left) (r := groupsOf right)
        ⟨rfl, fun w hw => group_test.mp <| List.all_eq_true.mp hg.1 w hw⟩
        ⟨rfl, fun w hw => group_test.mp <| List.all_eq_true.mp hg.2 w hw⟩ (by omega)
      rw [joined_groupsOf, joined_groupsOf] at hb
      have hi : left ++ ':' :: ':' :: right = head := by
        simpa [hs, List.intercalate_cons_cons] using hi
      exact hi ▸ hb

end Code

section Accepted

-- What is accepted, by what stands before the last colon where an IPv4 address stands behind it.
theorem isValidIpv6_iff : isValidIpv6 v = true ↔
    Body 8 v ∨ ∃ head q, IsQuad q ∧ Body 6 head ∧ v = head ++ ':' :: q := by
  constructor
  case mp =>
    intro h
    simp only [isValidIpv6] at h
    split at h
    case isTrue  => contradiction
    case isFalse hc =>
      obtain ⟨head, tail, rfl, ht⟩ := JsString.exists_last (c := ':') (l := v) <| by
        simp only [Bool.or_eq_true, decide_eq_true_eq, not_or, Classical.not_not] at hc
        exact hc.2
      rw [JsString.afterLast_append ht, JsString.beforeLast_append ht] at h
      split at h
      case isTrue  => contradiction
      case isFalse =>
        split at h
        case isTrue  => contradiction
        case isFalse hd =>
          have hd : (splitDouble (head ++ ':' :: tail)).length ≤ 2 := by omega
          split at h
          case isTrue =>
            split at h
            case isTrue  => contradiction
            case isFalse hq =>
              split at h
              case isTrue  => contradiction
              case isFalse =>
                have hl := (length_splitDouble_append head (':' :: tail)).trans hd
                exact .inr ⟨head, tail, isValidIpv4_iff.mp <| by simpa using hq,
                  body_of_isGrouped (by decide) hl h, rfl⟩
          case isFalse => exact .inl <| body_of_isGrouped (by decide) hd h
  case mpr =>
    have hchars {v : List Char} (h : ∀ c ∈ v, isHex c = true ∨ c = ':' ∨ c = '.') :
        (v.any fun c => !(isHex c || c = ':' || c = '.')) = false := by
      rw [List.any_eq_false]
      intro c hc
      have := h c hc
      simp only [Bool.not_eq_true', Bool.or_eq_false_iff, decide_eq_false_iff_not]
      grind
    rintro (h | ⟨head, q, hq, h, rfl⟩)
    · obtain ⟨s, t, hv, ht⟩ := JsString.exists_last h.colon
      have hdot : '.' ∉ JsString.afterLast ':' v := by
        have hn := h.dot
        rw [hv] at hn ⊢
        rw [JsString.afterLast_append ht]
        simp_all
      have hg := isGrouped_of_body (k := 0) (by decide) h
      have hs := h.split
      have hc := hchars fun c hc => (h.chars hc).imp_right .inl
      have hl : ¬1 < (splitDouble v).length - 1 := by omega
      simp only [isValidIpv6, hc, h.ne_nil, h.colon, hdot, hg, if_neg hl]
      simp
    · have hg := isGrouped_of_body (k := 2) (by decide) h
      have hs := h.split_quad hq
      have hc := hchars (v := head ++ ':' :: q) fun c hc => by
        simp only [List.mem_append, List.mem_cons] at hc
        obtain hc | rfl | hc := hc
        · exact (h.chars hc).imp_right .inl
        · exact .inr <| .inl rfl
        · obtain hd | rfl := hq.chars hc
          · exact .inl <| by simp [isHex, hd]
          · exact .inr <| .inr rfl
      have hl : ¬1 < (splitDouble (head ++ ':' :: q)).length - 1 := by omega
      simp only [isValidIpv6, hc, JsString.afterLast_append hq.colon, JsString.beforeLast_append hq.colon, hq.dot,
        isValidIpv4_iff.mpr hq, h.ne_nil, hg, if_neg hl]
      simp

end Accepted

section Slip

-- At most five groups, two or three colons, and an IPv4 address.
def Slip (v : List Char) : Prop :=
  ∃ n ws j q, Groups n ws ∧ n ≤ 5 ∧ (j = 2 ∨ j = 3) ∧ IsQuad q ∧
    v = joined ws ++ List.replicate j ':' ++ q

theorem slip_iff : Slip v ↔ ∃ head q, IsQuad q ∧ (Ends 1 head ∨ Ends 2 head) ∧ v = head ++ ':' :: q := by
  have hr (t q : List Char) (j : Nat) :
      t ++ List.replicate (j + 1) ':' ++ q = t ++ List.replicate j ':' ++ ':' :: q := by
    rw [List.replicate_succ']
    simp
  constructor
  case mp =>
    rintro ⟨n, ws, j, q, hg, hn, rfl | rfl, hq, rfl⟩
    · exact ⟨_, q, hq, .inl ⟨n, ws, hg, hn, rfl⟩, hr ..⟩
    · exact ⟨_, q, hq, .inr ⟨n, ws, hg, hn, rfl⟩, hr ..⟩
  case mpr =>
    rintro ⟨_, q, hq, ⟨n, ws, hg, hn, rfl⟩ | ⟨n, ws, hg, hn, rfl⟩, rfl⟩
    · exact ⟨n, ws, 2, q, hg, hn, .inl rfl, hq, (hr ..).symm⟩
    · exact ⟨n, ws, 3, q, hg, hn, .inr rfl, hq, (hr ..).symm⟩

-- The check is right just where an elision is not followed by an IPv4 address.
theorem isValidIpv6_iff_isAddress_iff (v : String) :
    (isValidIpv6 v.toList = true ↔ IsAddress v.toList) ↔ ¬Slip v.toList := by
  rw [isValidIpv6_iff, isAddress_iff, slip_iff]
  simp only [body_six_iff]
  generalize v.toList = v
  constructor
  case mp =>
    rintro h ⟨head, q, hq, he | he, rfl⟩
    · obtain hi | hi := quad_unique hq <| h.mpr <| .inr ⟨head, q, hq, .inr he, rfl⟩
      · exact absurd (hi.trailing.symm.trans he.trailing) <| by decide
      · exact absurd (hi.trailing.symm.trans he.trailing) <| by decide
    · obtain hi | hi := quad_unique hq <| h.mp <| .inr ⟨head, q, hq, .inr he, rfl⟩
      · exact absurd (hi.trailing.symm.trans he.trailing) <| by decide
      · exact absurd (hi.trailing.symm.trans he.trailing) <| by decide
  case mpr =>
    intro hs
    refine or_congr_right <| exists_congr fun head => exists_congr fun q => ?_
    refine and_congr_right fun hq => and_congr_left fun hv => or_congr_right ?_
    exact iff_of_false (fun h => hs ⟨head, q, hq, .inr h, hv⟩) fun h => hs ⟨head, q, hq, .inl h, hv⟩

theorem not_isValidIpv6_iff_isAddress :
    ¬∀ v : String, isValidIpv6 v.toList = true ↔ IsAddress v.toList := by
  intro h
  have hq : IsQuad "192.0.2.1".toList := ⟨[192, 0, 2, 1], rfl, by decide, by decide⟩
  have ha : IsAddress "::192.0.2.1".toList :=
    .elided (m := 0) (n := 2) groups_nil (.quad groups_nil hq) <| by decide
  exact absurd ((h "::192.0.2.1").mpr ha) <| by decide +kernel

end Slip

end InstanceForm
