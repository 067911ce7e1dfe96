import LoxilbUi.Hooks.Theorems.LbRuleValues
import LoxilbUi.Library.MergePatch
import LoxilbUi.Pages.LBRulePage

-- What the patch that an edit is sent as makes of the rule.

namespace LBRulePage

open JsValue LBRuleApplied

variable {v p : JsValue} {j target : Json} {key : String} {ms : List (String × JsValue)}
variable {vs : List JsValue}

-- The edit lets go of something that was read, in a record that it keeps.
inductive Clears : JsValue → JsValue → Prop
  | here {p : JsValue} (h : ¬ZeroValue p) : Clears .undefined p
  | inside {vs ps : List (String × JsValue)} {key : String}
    (h : Clears ((JsValue.object vs).get key) ((JsValue.object ps).get key)) :
    Clears (.object vs) (.object ps)

section MergePatch

theorem jsonItems_eq : jsonItems vs = vs.map fun v => v.json.getD .null := by
  induction vs
  case nil          => rfl
  case cons v vs hi => rw [jsonItems, hi, List.map_cons]

theorem ofJsonItems_eq {js : List Json} : ofJsonItems js = js.map ofJson := by
  induction js
  case nil          => rfl
  case cons j js hi => rw [ofJsonItems, hi, List.map_cons]

theorem object_get : (JsValue.object ms).get key = (ms.lookup key).getD .undefined :=
  rfl

theorem get_ofJsonMembers {js : List (String × Json)} :
    (JsValue.object (ofJsonMembers js)).get key = ((js.lookup key).map ofJson).getD .undefined := by
  rw [object_get, lookup_ofJsonMembers]

-- A value comes back from its own text.
theorem zeroAlike_ofJson (hc : v.Carried) : ∀ {j}, v.json = some j → ZeroAlike (ofJson j) v := by
  induction hc
  case undefined => intro j hj; cases hj
  case null      => intro j hj; cases hj; exact .same rfl
  case bool b    => intro j hj; cases hj; exact .same <| by simp [ofJson, strictEq]
  case number d  => intro j hj; cases hj; exact .same <| by simp [ofJson, strictEq, JsNumber.strictEq]
  case string s  => intro j hj; cases hj; exact .same <| by simp [ofJson, strictEq]
  case array vs hv hi =>
    intro j hj
    cases hj
    rw [ofJson, ofJsonItems_eq, jsonItems_eq]
    refine .array (by simp) fun i hl hr => ?_
    simp only [List.getElem_map]
    cases hj : vs[i].json
    case none =>
      rw [(hv _ <| List.getElem_mem hr).json_eq_none_iff.mp hj]
      exact .zero .null .undefined
    case some j => exact hi _ (List.getElem_mem hr) hj
  case object ms hn hm hi =>
    intro j hj
    cases hj
    rw [ofJson]
    refine .object ?_ hn fun key => ?_
    · rw [ofJsonMembers_keys]
      exact hn.sublist jsonMembers_keys
    · rw [get_ofJsonMembers, lookup_jsonMembers hn, object_get]
      cases hl : ms.lookup key
      case none => exact .zero .undefined .undefined
      case some v =>
        have hv : v.Carried := hm _ <| Dict.mem_of_lookup hl
        cases hj : v.json
        case none =>
          rw [hv.json_eq_none_iff.mp hj]
          simpa [hj] using .zero .undefined .undefined
        case some j => simpa [hj] using hi _ (Dict.mem_of_lookup hl) hj

theorem zeroAlike_of_not_clears (h : ¬Clears .undefined p) : ZeroAlike p .undefined :=
  .zero (not_not.mp fun hz => h <| .here hz) .undefined

theorem not_clears_of_isNil (h : p.isNil) : ¬Clears v p := by
  intro hc
  cases hc
  case here hz =>
    cases p
    case undefined => exact hz .undefined
    case null      => exact hz .null
    all_goals contradiction
  case inside => contradiction

theorem not_clears_member (h : ¬Clears (.object ms) (ofJson target)) :
    ¬Clears ((JsValue.object ms).get key)
      (((target.members.lookup key).map ofJson).getD .undefined) := by
  cases target
  case object ts =>
    intro hc
    rw [← get_ofJsonMembers] at hc
    exact h <| .inside hc
  all_goals exact not_clears_of_isNil rfl

-- A patch made of a whole value leads to the value, if that lets go of nothing.
theorem zeroAlike_mergePatch (hc : v.Carried) : ∀ {j target}, v.json = some j → target.Proper →
    ¬Clears v (ofJson target) → ZeroAlike (ofJson (Json.mergePatch target j)) v := by
  induction hc
  case object ms hn hm hi =>
    intro j target hj ht hcl
    cases hj
    rw [Json.mergePatch, ofJson]
    refine .object ?_ hn fun key => ?_
    · rw [ofJsonMembers_keys]
      exact Json.nodup_mergeMembers ht.nodup_members
    · have hk := @not_clears_member target key ms hcl
      rw [get_ofJsonMembers, Json.lookup_mergeMembers (hn.sublist jsonMembers_keys),
        lookup_jsonMembers hn]
      rw [object_get] at hk ⊢
      cases hl : ms.lookup key
      case none =>
        rw [hl] at hk
        exact zeroAlike_of_not_clears hk
      case some v =>
        rw [hl] at hk
        have hv : v.Carried := hm _ <| Dict.mem_of_lookup hl
        simp only [Option.bind_some, Option.getD_some] at hk ⊢
        split
        case h_1 hj =>
          rw [hv.json_eq_none_iff.mp hj] at hk ⊢
          exact zeroAlike_of_not_clears hk
        case h_2 hj =>
          rw [hv.json_eq_null_iff.mp hj]
          exact .zero .undefined .null
        case h_3 j _ hj =>
          refine hi _ (Dict.mem_of_lookup hl) hj ?_ ?_
          · cases ht' : target.members.lookup key
            case none   => exact .null
            case some t => exact ht.lookup ht'
          · cases ht' : target.members.lookup key
            case none   => exact not_clears_of_isNil rfl
            case some t => simpa [ht'] using hk
  case array vs hv _ =>
    intro j target hj _ _
    cases hj
    exact zeroAlike_ofJson (.array hv) rfl
  case undefined => intro j target hj; cases hj
  case null      => intro j target hj _ _; cases hj; exact zeroAlike_ofJson .null rfl
  case bool b    => intro j target hj _ _; cases hj; exact zeroAlike_ofJson (.bool b) rfl
  case number d  => intro j target hj _ _; cases hj; exact zeroAlike_ofJson (.number d) rfl
  case string s  => intro j target hj _ _; cases hj; exact zeroAlike_ofJson (.string s) rfl

end MergePatch

-- The rule, once the patch that the edit is sent as is applied to it.
def applied (edited : JsObject) (rule : JsonObject) : JsValue :=
  ofJson <| Json.mergePatch (.object rule.members) <|
    .object <| jsonMembers (lbServiceArgumentsPatch edited rule.value).entries

-- A value that only the form brought in: the rule carries nothing there, and the edit holds the
-- default of the form.
def IsScaffolding (edited readBack : JsObject) (key : String) : Prop :=
  readBack.get key = .undefined ∧ isFormDefault key (edited.get key) = true

-- What is to be of the members of the rule that may change: those that the edit keeps are as it has
-- them, and those of the form alone stay away.
structure Faithful (edited : JsObject) (rule : JsonObject) : Prop where
  kept        : ∀ key ∉ immutableServiceArguments, (edited.get key).Carried →
    ¬Clears (edited.get key) (rule.value.get key) → ¬IsScaffolding edited rule.value key →
    ZeroAlike ((applied edited rule).get key) (edited.get key)
  scaffolding : ∀ key ∉ immutableServiceArguments, IsScaffolding edited rule.value key →
    (applied edited rule).get key = .undefined

section Faithful

variable {edited readBack : JsObject} {rule : JsonObject}

theorem get?_value : rule.value.get? key = (rule.members.lookup key).map ofJson :=
  lookup_ofJsonMembers

theorem applied_get : (applied edited rule).get key =
    match ((edited.get? key).filter <| isEdited rule.value key).bind json with
    | none       => rule.value.get key
    | some .null => .undefined
    | some j     => ofJson <| Json.mergePatch ((rule.members.lookup key).getD .null) j := by
  rw [applied, Json.mergePatch, ofJson, get_ofJsonMembers, Json.members, Json.lookup_mergeMembers <|
    (lbServiceArgumentsPatch edited rule.value).nodup.sublist jsonMembers_keys,
    lookup_jsonMembers (lbServiceArgumentsPatch edited rule.value).nodup, JsObject.get, get?_value,
    lbServiceArgumentsPatch, Dict.lookup_filter_entries edited.nodup, ← Dict.get?]
  generalize ((edited.get? key).filter <| isEdited rule.value key).bind json = o
  obtain _ | j := o
  · rfl
  · cases j <;> rfl

-- What the edit leaves alone although it may change it.
theorem not_isEdited (hk : key ∉ immutableServiceArguments) (h : ¬isEdited readBack key v = true) :
    (readBack.get key = .undefined ∧ (isZero v = true ∨ isFormDefault key v = true)) ∨
      v.json = (readBack.get key).json := by
  rw [← stringify_eq_iff]
  by_cases he : v.stringify = (readBack.get key).stringify
  · exact .inr he
  · refine .inl ?_
    simp only [isEdited, hk, he, ne_eq, not_false_eq_true, decide_true, Bool.true_and, Bool.and_true,
      Bool.not_eq_true', Bool.not_eq_false, Bool.and_eq_true, Bool.or_eq_true] at h
    exact ⟨strictEq_inv h.1, h.2⟩

theorem zeroValue_of_isZero (h : isZero v = true) : ZeroValue v := by
  cases v
  case undefined => exact .undefined
  case null      => exact .null
  case bool b    =>
    cases b
    · exact .bool
    · contradiction
  case number n  =>
    have hn : n.strictEq 0 = true := by simpa [isZero, strictEq] using h
    exact JsNumber.strictEq_zero_iff.mp hn ▸ .number
  case string s  =>
    have hs : s = "" := by simpa [isZero, strictEq] using h
    exact hs ▸ .string
  all_goals contradiction

-- What is under a key that the patch leaves out is what was read there.
theorem zeroAlike_readBack (hk : key ∉ immutableServiceArguments) (hc : v.Carried)
    (hs : ¬(rule.value.get key = .undefined ∧ isFormDefault key v = true))
    (h : ¬isEdited rule.value key v = true) : ZeroAlike (rule.value.get key) v := by
  obtain ⟨hp, hz | hd⟩ | hj := not_isEdited hk h
  · rw [hp]
    exact .zero .undefined <| zeroValue_of_isZero hz
  · exact absurd ⟨hp, hd⟩ hs
  · rw [JsObject.get, get?_value] at hj ⊢
    cases hr : rule.members.lookup key
    case none =>
      rw [hr] at hj
      rw [hc.json_eq_none_iff.mp hj]
      exact .zero .undefined .undefined
    case some j =>
      rw [hr] at hj
      exact zeroAlike_ofJson hc <| hj.trans <| json_ofJson j

-- What is under a key that the patch names.
theorem zeroAlike_patched (hc : v.Carried) (hcl : ¬Clears v (rule.value.get key)) :
    ZeroAlike (match v.json with
      | none       => rule.value.get key
      | some .null => .undefined
      | some j     => ofJson <| Json.mergePatch ((rule.members.lookup key).getD .null) j) v := by
  split
  case h_1 hj =>
    rw [hc.json_eq_none_iff.mp hj] at hcl ⊢
    exact zeroAlike_of_not_clears hcl
  case h_2 hj =>
    rw [hc.json_eq_null_iff.mp hj]
    exact .zero .undefined .null
  case h_3 j _ hj =>
    rw [JsObject.get, get?_value] at hcl
    refine zeroAlike_mergePatch hc hj ?_ ?_ <;> cases ht : rule.members.lookup key
    case refine_1.none   => exact .null
    case refine_1.some t => exact rule.proper.lookup ht
    case refine_2.none   => exact not_clears_of_isNil rfl
    case refine_2.some t => simpa [ht] using hcl

theorem applied_faithful : Faithful edited rule := by
  constructor
  case kept =>
    intro key hk hc hcl hs
    rw [applied_get]
    cases he : edited.get? key
    case none =>
      have hv : edited.get key = .undefined := by rw [JsObject.get, he, Option.getD_none]
      rw [hv] at hcl ⊢
      exact zeroAlike_of_not_clears hcl
    case some v =>
      have hv : edited.get key = v := JsObject.get_of_get? he
      rw [IsScaffolding, hv] at hs
      rw [hv] at hc hcl ⊢
      by_cases hed : isEdited rule.value key v = true
      case pos =>
        rw [Option.filter_some, if_pos hed, Option.bind_some]
        exact zeroAlike_patched hc hcl
      case neg =>
        rw [Option.filter_some, if_neg hed, Option.bind_none]
        exact zeroAlike_readBack hk hc hs hed
  case scaffolding =>
    rintro key hk ⟨hp, hd⟩
    have hed : ¬isEdited rule.value key (edited.get key) = true := by
      simp [isEdited, hp, hd, strictEq]
    rw [applied_get]
    cases he : edited.get? key
    case none   => exact hp
    case some v =>
      rw [JsObject.get_of_get? he] at hed
      rw [Option.filter_some, if_neg hed]
      exact hp

end Faithful

-- The rule reads as the edit has it, wherever it may change.
def Restores (edited : JsObject) (rule : JsonObject) : Prop :=
  ∀ key ∉ immutableServiceArguments, (edited.get key).Carried →
    ZeroAlike ((applied edited rule).get key) (edited.get key)

def bare : JsonObject where
  members := []
  proper  := .object (by simp) (by simp)

def limited : JsonObject where
  members := [("fc_max_outstanding", .number <| .ofInt 32)]
  proper  := .object (by simp) <| by simpa using .number _

def pinned : JsonObject where
  members := [("mtls_frontend", .object [("client_cert_mode", .string "required"),
    ("client_cn_pattern", .string "ops")])]
  proper  := .object (by simp) <| by
    simp only [List.mem_singleton, forall_eq]
    exact .object (by simp) <| by simpa using ⟨.string _, .string _⟩

-- A default of the form stays away; a member that is cleared stays, at the top and inside a record;
-- and a number that JSON has no text for takes its member out.
theorem not_restores :
    ¬Restores ⟨[("probeTimeout", .number 1800)], by simp⟩ bare ∧
    ¬Restores ⟨[("fc_max_outstanding", .undefined)], by simp⟩ limited ∧
    ¬Restores ⟨[], by simp⟩ limited ∧
    ¬Restores ⟨[("mtls_frontend", .object [("client_cert_mode", .string "required")])], by simp⟩
      pinned ∧
    ¬ZeroAlike ((applied ⟨[("fc_max_outstanding", .number .nan)], by simp⟩ limited).get
      "fc_max_outstanding") (.number .nan) := by
  refine ⟨fun h => ?scaffolding, fun h => ?undefined, fun h => ?removed, fun h => ?inside,
    fun h => ?nan⟩
  case scaffolding =>
    have hs := sameValue_of_zeroAlike <| h "probeTimeout" (by decide) <| .number _
    exact absurd hs <| by decide
  case undefined =>
    have hs := sameValue_of_zeroAlike <| h "fc_max_outstanding" (by decide) .undefined
    exact absurd hs <| by decide
  case removed =>
    have hs := sameValue_of_zeroAlike <| h "fc_max_outstanding" (by decide) .undefined
    exact absurd hs <| by decide
  case inside =>
    have hs := sameValue_of_zeroAlike <| h "mtls_frontend" (by decide) <|
      .object (by simp) <| by simpa using .string _
    exact absurd hs <| by decide
  case nan => exact absurd (sameValue_of_zeroAlike h) <| by decide

end LBRulePage
