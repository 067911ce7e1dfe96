import LoxilbUi.Connector.LoadBalancer
import LoxilbUi.Types.Theorems.SerializeStages

-- What the last steps before the wire leave of a rule: no object with a negative number in it, and no
-- member that is inert.

namespace LoadBalancer

open AIGateway

variable {v w : JsValue} {vs : List JsValue} {ms : List (String × JsValue)} {k : String}
variable {object a : JsObject} {fields : List String}

section Clean

-- No object in it has a negative number for a member.
inductive Clean : JsValue → Prop
  | undefined : Clean .undefined
  | null      : Clean .null
  | bool (b : Bool) : Clean (.bool b)
  | number (n : JsNumber) : Clean (.number n)
  | string (s : String) : Clean (.string s)
  | array (vs : List JsValue) (h : ∀ v ∈ vs, Clean v) : Clean (.array vs)
  | object (ms : List (String × JsValue)) (hn : ∀ m ∈ ms, isNegative m.2 = false)
    (h : ∀ m ∈ ms, Clean m.2) : Clean (.object ms)

def NonNegative (v : JsValue) : Prop :=
  isNegative v = false ∧ Clean v

theorem cleanItems_eq (h : ∀ v ∈ vs, cleanNegativeNumbers v = v) : cleanItems vs = vs := by
  induction vs
  case nil => rfl
  case cons v vs hi =>
    rw [cleanItems, h v (by simp), hi fun w hw => h w (by simp [hw])]

theorem cleanMembers_eq (h : ∀ m ∈ ms, isNegative m.2 = false ∧ cleanNegativeNumbers m.2 = m.2) :
    cleanMembers ms = ms := by
  induction ms
  case nil => rfl
  case cons m ms hi =>
    obtain ⟨hn, hc⟩ := h m (by simp)
    simp [cleanMembers, hn, hc, hi fun m hm => h m (by simp [hm])]

theorem cleanNegativeNumbers_eq (h : Clean v) : cleanNegativeNumbers v = v := by
  induction h
  case array vs _ hi => rw [cleanNegativeNumbers, cleanItems_eq hi]
  case object ms hn _ hi => rw [cleanNegativeNumbers, cleanMembers_eq fun m hm => ⟨hn m hm, hi m hm⟩]
  all_goals rfl

theorem cleanMembers_lookup (h : ms.lookup k = some v) (hn : isNegative v = false) :
    (cleanMembers ms).lookup k = some (cleanNegativeNumbers v) := by
  induction ms
  case nil => simp at h
  case cons m ms hi =>
    obtain ⟨j, w⟩ := m
    rw [Dict.lookup_cons] at h
    simp only [cleanMembers]
    split at h
    case isTrue hk =>
      cases h
      simp [hn, hk]
    case isFalse hk =>
      split
      case isTrue  => exact hi h
      case isFalse => rw [Dict.lookup_cons, if_neg hk, hi h]

theorem cleanObject_get (h : NonNegative (object.get k)) :
    (cleanObject object).get k = object.get k := by
  simp only [JsObject.get, cleanObject, Dict.get?] at h ⊢
  cases hl : object.entries.lookup k
  case some v =>
    rw [hl] at h
    rw [cleanMembers_lookup hl h.left]
    exact congrArg some (cleanNegativeNumbers_eq h.right) ▸ rfl
  case none =>
    cases hc : (cleanMembers object.entries).lookup k
    case none   => rfl
    case some v =>
      have hm := List.mem_map_of_mem (f := Prod.fst) <| Dict.mem_of_lookup hc
      obtain ⟨v, hv⟩ := Dict.mem_keys_iff.mp <| (cleanMembers_keys _).subset hm
      simp [Dict.get?, hl] at hv

@[simp]
theorem isNegative_cleaned : isNegative (cleanNegativeNumbers v) = isNegative v := by
  cases v <;> rfl

mutual

theorem clean_cleaned : ∀ v, Clean (cleanNegativeNumbers v)
  | .undefined => .undefined
  | .null      => .null
  | .bool b    => .bool b
  | .number n  => .number n
  | .string s  => .string s
  | .array vs  => .array _ <| clean_cleanItems vs
  | .object ms => .object _ (fun m hm => (clean_cleanMembers ms m hm).left)
    fun m hm => (clean_cleanMembers ms m hm).right

theorem clean_cleanItems : ∀ vs, ∀ v ∈ cleanItems vs, Clean v
  | [],      _, hv => absurd hv List.not_mem_nil
  | v :: vs, w, hw => by
    rw [cleanItems, List.mem_cons] at hw
    obtain rfl | hw := hw
    · exact clean_cleaned v
    · exact clean_cleanItems vs w hw

theorem clean_cleanMembers : ∀ ms, ∀ m ∈ cleanMembers ms, NonNegative m.2
  | [],           _, hm => absurd hm List.not_mem_nil
  | (j, v) :: ms, m, hm => by
    rw [cleanMembers] at hm
    split at hm
    case isTrue => exact clean_cleanMembers ms m hm
    case isFalse hn =>
      obtain rfl | hm := List.mem_cons.mp hm
      · exact ⟨by simpa using hn, clean_cleaned v⟩
      · exact clean_cleanMembers ms m hm

end

theorem mem_cleanMembers (h : (k, w) ∈ cleanMembers ms) :
    ∃ v, (k, v) ∈ ms ∧ isNegative v = false ∧ w = cleanNegativeNumbers v := by
  induction ms
  case nil => simp [cleanMembers] at h
  case cons m ms hi =>
    obtain ⟨j, u⟩ := m
    rw [cleanMembers] at h
    have rest (h : (k, w) ∈ cleanMembers ms) : ∃ v, (k, v) ∈ (j, u) :: ms ∧ isNegative v = false ∧
        w = cleanNegativeNumbers v := by
      obtain ⟨v, hm, hv⟩ := hi h
      exact ⟨v, List.mem_cons_of_mem _ hm, hv⟩
    split at h
    case isTrue => exact rest h
    case isFalse hn =>
      obtain h | h := List.mem_cons.mp h
      · cases h
        exact ⟨u, List.mem_cons_self, by simpa using hn, rfl⟩
      · exact rest h

theorem cleanObject_inv (h : (cleanObject object).get? k = some w) :
    ∃ v, object.get? k = some v ∧ isNegative v = false ∧ w = cleanNegativeNumbers v := by
  obtain ⟨v, hm, hv⟩ := mem_cleanMembers <| Dict.get?_eq_some_iff.mp h
  exact ⟨v, Dict.get?_eq_some_iff.mpr hm, hv⟩

theorem cleanObject_none (h : object.get? k = none) : (cleanObject object).get? k = none :=
  none_of_absurd fun w hw => by
    obtain ⟨v, hv, _⟩ := cleanObject_inv hw
    simp [h] at hv

-- A member that is compared with a number that is not negative.
theorem cleanObject_strictEq {n : JsNumber} (hn : n.lt 0 = false) :
    ((cleanObject object).get k).strictEq (.number n) = (object.get k).strictEq (.number n) := by
  cases hv : object.get? k
  case none => rw [JsObject.get, cleanObject_none hv, JsObject.get, hv]
  case some v =>
    rw [JsObject.get_of_get? hv]
    cases hneg : isNegative v
    case false =>
      have hc : (cleanObject object).get? k = some (cleanNegativeNumbers v) := cleanMembers_lookup hv hneg
      rw [JsObject.get_of_get? hc]
      cases v <;> rfl
    case true =>
      have hc : (cleanObject object).get? k = none := none_of_absurd fun w hw => by
        obtain ⟨u, hu, hpos, _⟩ := cleanObject_inv hw
        rw [hv] at hu
        cases hu
        simp [hneg] at hpos
      rw [JsObject.get, hc, Option.getD_none]
      cases heq : v.strictEq (.number n)
      case false => rfl
      case true =>
        rw [JsValue.strictEq_inv heq, isNegative, hn] at hneg
        contradiction

def CleanObject (object : JsObject) : Prop :=
  ∀ m ∈ object.entries, NonNegative m.2

theorem cleanObject_clean : CleanObject (cleanObject object) :=
  clean_cleanMembers _

theorem cleanObject_eq_self (h : CleanObject object) : cleanObject object = object := by
  obtain ⟨ms, hn⟩ := object
  simp only [cleanObject, Dict.mk.injEq]
  exact cleanMembers_eq fun m hm => ⟨(h m hm).left, cleanNegativeNumbers_eq (h m hm).right⟩

theorem CleanObject.delete (h : CleanObject object) : CleanObject (object.delete fields) :=
  fun m hm => h m <| List.mem_of_mem_filter hm

theorem CleanObject.deleteIf {g : Bool} (h : CleanObject object) : CleanObject (deleteIf g fields object) := by
  cases g
  case false => exact h
  case true  => exact h.delete

end Clean

section Inert

theorem dropInert_cut : Cut a (dropInert a) :=
  Cut.deleteIf.trans .deleteIf

theorem dropInert_get (hp : k ∈ probeFields → (a.get "monitor").truthy = true)
    (hf : k = "mtls_frontend" → isInertFrontend (a.get "mtls_frontend") = false) :
    (dropInert a).get k = a.get k := by
  unfold dropInert
  extract_lets c
  have hc : c.get k = a.get k := get_deleteIf_of fun hk => by
    rw [hp hk]
    rfl
  rw [get_deleteIf_of, hc]
  intro hk
  have hm : c.get "mtls_frontend" = a.get "mtls_frontend" := by
    rw [get_deleteIf_of]
    exact fun hk => absurd hk (by decide)
  rw [hm, hf <| List.mem_singleton.mp hk]

theorem dropInert_clean (h : CleanObject a) : CleanObject (dropInert a) :=
  h.deleteIf.deleteIf

theorem dropInert_inv (h : (dropInert a).get? k = some v) : a.get? k = some v ∧
    (k ∈ probeFields → (a.get "monitor").truthy = true) ∧
    (k = "mtls_frontend" → isInertFrontend v = false) := by
  unfold dropInert at h
  extract_lets b at h
  obtain ⟨h, hf⟩ := deleteIf_inv h
  have hb := JsObject.get_of_get? h
  obtain ⟨h, hp⟩ := deleteIf_inv h
  refine ⟨h, fun hk => by simpa using hp hk, ?_⟩
  rintro rfl
  exact hb ▸ hf (by simp)

theorem dropInert_eq_self
    (hp : ∀ k ∈ probeFields, ∀ v, a.get? k = some v → (a.get "monitor").truthy = true)
    (hf : ∀ v, a.get? "mtls_frontend" = some v → isInertFrontend v = false) : dropInert a = a := by
  unfold dropInert
  extract_lets b
  have hb : b = a := deleteIf_eq_self fun hg k hk => none_of_absurd fun v hv => by
    simp [hp k hk v hv] at hg
  rw [hb]
  refine deleteIf_eq_self fun hg k hk => none_of_absurd fun v hv => ?_
  obtain rfl := List.mem_singleton.mp hk
  simp [JsObject.get_of_get? hv, hf v hv] at hg

end Inert

end LoadBalancer
