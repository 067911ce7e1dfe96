import LoxilbUi.Hooks.LbRuleApplied

-- When the gateway means the same by two values, and that the comparisons of the rule predicate are
-- the ones that do not tell them apart.

namespace LBRuleApplied

open AIGateway LoadBalancer

variable {v w : JsValue} {vs ws : List JsValue} {ms : List (String × JsValue)} {key : String}

-- Zero for its type.
inductive ZeroValue : JsValue → Prop
  | undefined : ZeroValue .undefined
  | null      : ZeroValue .null
  | bool      : ZeroValue (.bool false)
  | number    : ZeroValue (.number 0)
  | string    : ZeroValue (.string "")
  | array     : ZeroValue (.array [])
  | object (ms : List (String × JsValue)) (h : ∀ m ∈ ms, ZeroValue m.2) : ZeroValue (.object ms)

mutual

theorem isZero_iff : ∀ v, isZero v = true ↔ ZeroValue v
  | .undefined => by simp [isZero, ZeroValue.undefined]
  | .null      => by simp [isZero, ZeroValue.null]
  | .bool b    => by
    simp only [isZero, Bool.not_eq_true']
    exact ⟨fun h => h ▸ .bool, fun h => by cases h; rfl⟩
  | .number n  => by
    simp only [isZero, JsNumber.strictEq_zero_iff]
    exact ⟨fun h => h ▸ .number, fun h => by cases h; rfl⟩
  | .string s  => by
    simp only [isZero, decide_eq_true_eq]
    exact ⟨fun h => h ▸ .string, fun h => by cases h; rfl⟩
  | .array vs  => by
    simp only [isZero, List.isEmpty_iff]
    exact ⟨fun h => h ▸ .array, fun h => by cases h; rfl⟩
  | .object ms => by
    rw [isZero, membersZero_iff ms]
    exact ⟨.object ms, fun h => by cases h; assumption⟩

theorem membersZero_iff : ∀ ms, membersZero ms = true ↔ ∀ m ∈ ms, ZeroValue m.2
  | []             => by simp [membersZero]
  | (key, v) :: ms => by simp [membersZero, isZero_iff v, membersZero_iff ms]

end

-- The gateway means the same by both: zero and absent are one answer, and members may stand in any
-- order. A text, a truth value and a number are themselves; NaN is never read back.
inductive ZeroAlike : JsValue → JsValue → Prop
  | zero {v w : JsValue} (hv : ZeroValue v) (hw : ZeroValue w) : ZeroAlike v w
  | same {v w : JsValue} (h : v.strictEq w = true) : ZeroAlike v w
  | array {vs ws : List JsValue} (hl : vs.length = ws.length)
    (h : ∀ i (hv : i < vs.length) (hw : i < ws.length), ZeroAlike vs[i] ws[i]) :
    ZeroAlike (.array vs) (.array ws)
  | object {ms ns : List (String × JsValue)} (hm : (ms.map Prod.fst).Nodup)
    (hn : (ns.map Prod.fst).Nodup)
    (h : ∀ key, ZeroAlike ((JsValue.object ms).get key) ((JsValue.object ns).get key)) :
    ZeroAlike (.object ms) (.object ns)

theorem itemsSame_of_get (hl : vs.length = ws.length)
    (h : ∀ i (hv : i < vs.length) (hw : i < ws.length), sameValue vs[i] ws[i] = true) :
    itemsSame vs ws = true := by
  induction vs generalizing ws
  case nil => rfl
  case cons v vs hi =>
    cases ws
    case nil => simp at hl
    case cons w ws =>
      have hh := h 0 (by simp) (by simp)
      have ht := hi (by simpa using hl) fun i hv hw =>
        h (i + 1) (by simpa using hv) (by simpa using hw)
      simp only [itemsSame, Bool.and_eq_true]
      exact ⟨hh, ht⟩

theorem membersSame_iff :
    membersSame ms w = true ↔ ∀ key v, (key, v) ∈ ms → sameValue v (w.get key) = true := by
  induction ms
  case nil => simp [membersSame]
  case cons m ms hi =>
    obtain ⟨key, v⟩ := m
    simp only [membersSame, Bool.and_eq_true, hi, List.mem_cons, Prod.mk.injEq]
    constructor
    · rintro ⟨h, hs⟩ key' v' (⟨rfl, rfl⟩ | hm)
      · exact h
      · exact hs _ _ hm
    · exact fun h => ⟨h _ _ (.inl ⟨rfl, rfl⟩), fun _ _ hm => h _ _ (.inr hm)⟩

theorem sameValue_zero (hv : isZero v = true) : sameValue v w = isZero w := by
  rw [sameValue.eq_def, if_pos hv]

theorem isZero_of_same (h : sameValue v w = true) (hv : isZero v = true) : isZero w = true := by
  rwa [sameValue_zero hv] at h

theorem sameValue_of_strictEq (h : v.strictEq w = true) : sameValue v w = true := by
  obtain rfl := JsValue.strictEq_inv h
  cases v <;> simp [sameValue, h, -ite_eq_left_iff] <;> first | exact id | contradiction

theorem isZero_get (h : isZero v = true) : isZero (v.get key) = true := by
  cases v
  case array vs =>
    simp only [isZero, List.isEmpty_iff] at h
    subst h
    by_cases hk : key = "length" <;> simp [JsValue.get, hk, isZero, JsNumber.strictEq]
    rfl
  case object ms =>
    obtain hm | hu := @JsValue.object_get_mem ms key
    · exact isZero_iff _ |>.mpr <| membersZero_iff ms |>.mp h _ hm
    · simp [hu, isZero]
  all_goals rfl

theorem sameValue_of_zeroAlike (h : ZeroAlike v w) : sameValue v w = true := by
  induction h
  case zero v w hv hw => exact sameValue_zero (isZero_iff v |>.mpr hv) ▸ isZero_iff w |>.mpr hw
  case same h => exact sameValue_of_strictEq h
  case array vs ws hl _ hi =>
    cases vs
    case nil =>
      obtain rfl : ws = [] := by simpa using hl.symm
      rfl
    case cons v vs => simpa [sameValue, isZero, hl] using itemsSame_of_get hl hi
  case object ms ns hm hn _ hi =>
    cases hz : isZero (.object ms)
    case true =>
      rw [sameValue_zero hz]
      refine membersZero_iff ns |>.mpr fun ⟨key, w⟩ hw => ?_
      have := isZero_of_same (hi key) (isZero_get hz)
      rw [JsValue.object_get_of_mem hn hw] at this
      exact isZero_iff w |>.mp this
    case false =>
      simp only [sameValue, hz, Bool.false_eq_true, if_false, membersSame_iff]
      intro key v hv
      exact JsValue.object_get_of_mem hm hv ▸ hi key

theorem ZeroAlike.item (hl : vs.length = ws.length)
    (h : ∀ i (hv : i < vs.length) (hw : i < ws.length), ZeroAlike vs[i] ws[i]) (n : Nat) :
    ZeroAlike ((((vs.zipIdx n).find? fun p => p.2.repr = key).map Prod.fst).getD .undefined)
      ((((ws.zipIdx n).find? fun p => p.2.repr = key).map Prod.fst).getD .undefined) := by
  induction vs generalizing ws n
  case nil =>
    obtain rfl : ws = [] := by simpa using hl.symm
    exact .zero .undefined .undefined
  case cons v vs hi =>
    cases ws
    case nil => simp at hl
    case cons w ws =>
      have hh : ZeroAlike v w := h 0 (by simp) (by simp)
      by_cases hk : n.repr = key
      · simpa [hk] using hh
      · simpa [hk] using hi (by simpa using hl) (fun i hv hw =>
          h (i + 1) (by simpa using hv) (by simpa using hw)) (n + 1)

theorem ZeroAlike.get (h : ZeroAlike v w) : ZeroAlike (v.get key) (w.get key) := by
  cases h
  case zero hv hw =>
    have hv := @isZero_get v key <| isZero_iff v |>.mpr hv
    have hw := @isZero_get w key <| isZero_iff w |>.mpr hw
    exact .zero (isZero_iff _ |>.mp hv) (isZero_iff _ |>.mp hw)
  case same h =>
    obtain rfl := JsValue.strictEq_inv h
    cases v
    case array | object => contradiction
    all_goals exact .zero .undefined .undefined
  case array hl h =>
    simp only [JsValue.get, hl]
    split
    case isTrue  => exact .same <| by simp [JsValue.strictEq, JsNumber.strictEq]
    case isFalse => exact .item hl h 0
  case object h => exact h key

-- No object in it, as in every field that is read back as sent.
inductive Flat : JsValue → Prop
  | undefined : Flat .undefined
  | null      : Flat .null
  | bool (b : Bool) : Flat (.bool b)
  | number (n : JsNumber) : Flat (.number n)
  | string (s : String) : Flat (.string s)
  | array (vs : List JsValue) (h : ∀ v ∈ vs, Flat v) : Flat (.array vs)

theorem get_of_itemsSame (hl : vs.length = ws.length) (h : itemsSame vs ws = true)
    (i : Nat) (hv : i < vs.length) (hw : i < ws.length) : sameValue vs[i] ws[i] = true := by
  induction vs generalizing ws i
  case nil => simp at hv
  case cons v vs hi =>
    cases ws
    case nil => simp at hl
    case cons w ws =>
      simp only [itemsSame, Bool.and_eq_true] at h
      cases i
      case zero   => exact h.left
      case succ i => exact hi (by simpa using hl) h.right i (by simpa using hv) (by simpa using hw)

theorem zeroAlike_of_sameValue (hf : Flat v) (h : sameValue v w = true) : ZeroAlike v w := by
  induction hf generalizing w
  case array vs _ hi =>
    cases hz : isZero (.array vs)
    case true => exact .zero (isZero_iff _ |>.mp hz) (isZero_iff _ |>.mp <| isZero_of_same h hz)
    case false =>
      rw [sameValue.eq_def, hz] at h
      cases w
      case array ws =>
        simp only [Bool.false_eq_true, if_false, Bool.and_eq_true, decide_eq_true_eq] at h
        refine .array h.left fun i hv hw => hi _ (List.getElem_mem hv) ?_
        exact get_of_itemsSame h.left h.right i hv hw
      all_goals simp at h
  all_goals
    rw [sameValue.eq_def] at h
    split at h
    case isTrue hz  => exact .zero (isZero_iff _ |>.mp hz) (isZero_iff _ |>.mp h)
    case isFalse hz => exact .same h

theorem text_zero (h : ZeroValue v) : text v = "" := by
  cases h <;> rfl

theorem text_eq_of_zeroAlike (h : ZeroAlike v w) : text v = text w := by
  cases h
  case zero hv hw => rw [text_zero hv, text_zero hw]
  case same h     => rw [JsValue.strictEq_inv h]
  all_goals rfl

end LBRuleApplied
