import LoxilbUi.Hooks.LbRuleApplied
import LoxilbUi.Types.LbFullproxyReplace

-- A fullproxy rule is keyed in two ways: by the texts that tell whether an edit is a replace of it, and
-- by the comparison that a confirmation goes by. They name the same rules.

namespace LBFullproxyReplace

open LBRuleApplied (sameRule portMaxOf matchMode blockOf)

variable {a b args : JsObject} {n : JsNumber}

-- The end of a range, where there is one.
def rangeOf (args : JsObject) : Option JsNumber :=
  match args.get "portMax", args.get "port" with
  | .number portMax, .number port => if port.lt portMax then some portMax else none
  | _, _                          => none

def Portless (args : JsObject) : Prop :=
  args.get "port" = .number .nan

-- Only one of two rules has a range, and it ends at zero, which stands for no range.
def EndsAtNone (a b : JsObject) : Prop :=
  rangeOf a = some 0 ∧ rangeOf b = none

-- The ports are numbers that can be compared, and so are the ends of the ranges.
structure Numbered (a b : JsObject) : Prop where
  left    : ∃ n, a.get "port" = .number n
  right   : ∃ n, b.get "port" = .number n
  port    : ¬(Portless a ∧ Portless b)
  range   : ¬EndsAtNone a b
  range'  : ¬EndsAtNone b a

theorem Numbered.symm (h : Numbered a b) : Numbered b a where
  left    := h.right
  right   := h.left
  port    := fun h' => h.port h'.symm
  range   := h.range'
  range'  := h.range

section Members

theorem text_eq (v : JsValue) : LBRuleApplied.text v = text v := by
  cases v <;> rfl

theorem text_cases (v : JsValue) : text v = "" ∨ v = .string (text v) := by
  cases v <;> simp [text]

theorem identityValue_portMax : identityValue "portMax" args = (rangeOf args).elim "" JsNumber.toText := by
  simp only [identityValue, rangeOf]
  generalize args.get "portMax" = v
  generalize args.get "port" = w
  cases v <;> cases w <;> try rfl
  case number.number m n => cases h : n.lt m <;> simp [h]

theorem portMaxOf_eq : portMaxOf args = (rangeOf args).getD 0 := by
  simp only [portMaxOf, rangeOf]
  generalize args.get "portMax" = v
  generalize args.get "port" = w
  cases v <;> cases w <;> try rfl
  case number.number m n => cases h : n.lt m <;> simp [h]

theorem rangeOf_ne_nan : rangeOf args ≠ some .nan := by
  rw [rangeOf]
  split
  case h_1 portMax port _ _ =>
    split
    case isTrue h =>
      intro he
      rw [Option.some.inj he, JsNumber.not_lt_nan] at h
      contradiction
    case isFalse => simp
  case h_2 => simp

-- Both ways say the same of two ranges unless one of them is none and the other ends at zero.
theorem identityValue_portMax_eq_iff (ha : ¬EndsAtNone a b) (hb : ¬EndsAtNone b a) :
    identityValue "portMax" a = identityValue "portMax" b ↔
      (portMaxOf a).strictEq (portMaxOf b) = true := by
  rw [identityValue_portMax, identityValue_portMax, portMaxOf_eq, portMaxOf_eq, JsNumber.strictEq_iff]
  have hna := @rangeOf_ne_nan a
  cases hra : rangeOf a <;> cases hrb : rangeOf b
  case none.none => simp
  case none.some n =>
    exact iff_of_false JsNumber.toText_ne_empty.symm fun h => hb ⟨hrb.trans <| congrArg some h.1.symm, hra⟩
  case some.none n =>
    exact iff_of_false JsNumber.toText_ne_empty fun h => ha ⟨hra.trans <| congrArg some h.1, hrb⟩
  case some.some m n =>
    constructor
    case mp => exact fun h => ⟨JsNumber.toText_injective h, fun h => hna <| hra.trans <| congrArg some h⟩
    case mpr => exact fun h => congrArg JsNumber.toText h.1

theorem identityValue_port (h : args.get "port" = .number n) : identityValue "port" args = n.toText := by
  simp [identityValue, h, JsValue.orElse, JsValue.isNil, JsValue.toText]

theorem identityValue_port_eq_iff (h : Numbered a b) :
    identityValue "port" a = identityValue "port" b ↔ (a.get "port").strictEq (b.get "port") = true := by
  obtain ⟨m, hm⟩ := h.left
  obtain ⟨n, hn⟩ := h.right
  rw [identityValue_port hm, identityValue_port hn, hm, hn, JsValue.strictEq, JsNumber.strictEq_iff,
    JsNumber.toText_injective.eq_iff, iff_self_and]
  rintro rfl rfl
  exact h.port ⟨hm, hn⟩

end Members

section Agree

-- What both ways look at, member by member.
structure SameListing (a b : JsObject) : Prop where
  externalIP      : text (a.get "externalIP") = text (b.get "externalIP")
  port            : (a.get "port").strictEq (b.get "port") = true
  portMax         : (portMaxOf a).strictEq (portMaxOf b) = true
  protocol        : JsString.toLowerCase (text <| a.get "protocol") =
    JsString.toLowerCase (text <| b.get "protocol")
  host            : text (a.get "host") = text (b.get "host")
  path_prefix     : text (a.get "path_prefix") = text (b.get "path_prefix")
  path_match_mode : matchMode a = matchMode b
  model_name      : text (a.get "model_name") = text (b.get "model_name")

theorem SameListing.symm (h : SameListing a b) : SameListing b a where
  externalIP      := h.externalIP.symm
  port            := JsValue.strictEq_comm.trans h.port
  portMax         := JsNumber.strictEq_comm.trans h.portMax
  protocol        := h.protocol.symm
  host            := h.host.symm
  path_prefix     := h.path_prefix.symm
  path_match_mode := h.path_match_mode.symm
  model_name      := h.model_name.symm

theorem changedFullproxyIdentity_eq_nil_iff (h : Numbered a b) :
    changedFullproxyIdentity a b = [] ↔ SameListing a b := by
  have hm : identityValue "path_match_mode" a = identityValue "path_match_mode" b ↔
      matchMode a = matchMode b := by
    simp only [identityValue, matchMode, text_eq]
  rw [changedFullproxyIdentity, List.filter_eq_nil_iff]
  simp only [fullproxyIdentityFields, List.forall_mem_cons, List.not_mem_nil, false_implies,
    implies_true, and_true, decide_not, Bool.not_eq_eq_eq_not, Bool.not_true, decide_eq_false_iff_not,
    Classical.not_not, identityValue_port_eq_iff h, identityValue_portMax_eq_iff h.range h.range', hm]
  constructor
  case mp =>
    rintro ⟨h₁, h₂, h₃, h₄, h₅, h₆, h₇, h₈⟩
    exact ⟨h₁, h₂, h₃, h₄, h₅, h₆, h₇, h₈⟩
  case mpr =>
    intro h
    exact ⟨h.externalIP, h.port, h.portMax, h.protocol, h.host, h.path_prefix, h.path_match_mode,
      h.model_name⟩

theorem sameRule_iff (hn : text (a.get "name") = text (b.get "name"))
    (hb : (blockOf a).strictEq (blockOf b) = true) : sameRule a b = true ↔ SameListing b a := by
  have hname : text (a.get "name") = "" ∨ (b.get "name").strictEq (a.get "name") = true := by
    obtain h | h := text_cases (a.get "name")
    · exact .inl h
    · obtain h' | h' := text_cases (b.get "name")
      · exact .inl <| hn.trans h'
      · rw [h, h', hn]
        exact .inr <| by simp [JsValue.strictEq, text]
  simp only [sameRule, ne_eq, Bool.not_eq_eq_eq_not, Bool.not_true, decide_not, Bool.and_eq_true,
    decide_eq_false_iff_not, Bool.if_false_left, Bool.decide_and, Bool.decide_eq_false,
    Bool.not_and, Bool.not_not, ite_not, Bool.if_false_right, decide_eq_true_eq, Bool.or_eq_true, text_eq]
  constructor
  case mp =>
    rintro ⟨h₁, h₂, h₃, h₄, h₅, h₆, h₇, h₈, -⟩
    exact ⟨h₁, h₂, h₃, h₄, h₅, h₆, h₈, h₇⟩
  case mpr =>
    intro h
    exact ⟨h.externalIP, h.port, h.portMax, h.protocol, h.host, h.path_prefix, h.model_name,
      h.path_match_mode, hname, hb⟩

-- An edit leaves the rule what it is just if a confirmation takes each for the other.
theorem changedFullproxyIdentity_iff_sameRule (h : Numbered a b)
    (hn : text (a.get "name") = text (b.get "name"))
    (hblock : (blockOf a).strictEq (blockOf b) = true) :
    changedFullproxyIdentity a b = [] ↔ sameRule a b = true ∧ sameRule b a = true := by
  rw [changedFullproxyIdentity_eq_nil_iff h, sameRule_iff hn hblock,
    sameRule_iff hn.symm <| JsNumber.strictEq_comm.trans hblock]
  exact ⟨fun h => ⟨h.symm, h⟩, fun h => h.right⟩

def fullproxyRule (port portMax : JsValue) (protocol mode : String) : JsObject :=
  .ofList [("mode", .number 4), ("externalIP", .string "10.0.0.1"), ("port", port), ("portMax", portMax),
    ("protocol", .string protocol), ("path_match_mode", .string mode)]

-- A range from below zero that ends at it, and no range.
theorem not_changedFullproxyIdentity_iff_sameRule : ¬∀ a b : JsObject,
    a.get "mode" = .number 4 → b.get "mode" = .number 4 →
    (∃ n, a.get "port" = .number n) → (∃ n, b.get "port" = .number n) →
    text (a.get "name") = text (b.get "name") → (blockOf a).strictEq (blockOf b) = true →
    (changedFullproxyIdentity a b = [] ↔ sameRule a b = true ∧ sameRule b a = true) := by
  intro h
  have h := h (fullproxyRule (.number (-1)) (.number 0) "tcp" "") (fullproxyRule (.number (-1)) .undefined "tcp" "")
    rfl rfl ⟨-1, rfl⟩ ⟨-1, rfl⟩ rfl (by decide)
  revert h
  decide

theorem changedFullproxyIdentity_spelled :
    changedFullproxyIdentity (fullproxyRule (.number 80) (.number 80) "TCP" "disabled")
        (fullproxyRule (.number 80) .undefined "tcp" "") = [] ↔
      sameRule (fullproxyRule (.number 80) (.number 80) "TCP" "disabled")
          (fullproxyRule (.number 80) .undefined "tcp" "") = true ∧
        sameRule (fullproxyRule (.number 80) .undefined "tcp" "")
          (fullproxyRule (.number 80) (.number 80) "TCP" "disabled") = true :=
  changedFullproxyIdentity_iff_sameRule
    ⟨⟨80, rfl⟩, ⟨80, rfl⟩, fun h => absurd h.1 nofun, fun h => absurd h.1 (by decide),
      fun h => absurd h.1 (by decide)⟩
    rfl (by decide)

end Agree

end LBFullproxyReplace
