import LoxilbUi.Api.CapabilityMap

-- Where the generator comes to in both specifications. A context is the way to a place, as long as no name looks
-- like a part of another; a place is reached by more than one of them through references only.

namespace Capabilities

variable {loxilb gateway doc node v w : JsValue} {m n : Nat} {p q : Position} {s t : Shared} {name : String}

section Resolve

theorem resolveRef_mono (h : resolveRef doc n node = some v) (hm : n ≤ m) : resolveRef doc m node = some v := by
  induction n generalizing node m
  case zero => cases h
  case succ n hi =>
    obtain ⟨m, rfl⟩ := Nat.exists_eq_add_of_le' (Nat.lt_of_lt_of_le n.succ_pos hm)
    rw [resolveRef] at h ⊢
    split at h
    case h_1 r hr => exact hi h <| Nat.le_of_succ_le_succ hm
    case h_2 hr   => exact h

def Resolves (doc node v : JsValue) : Prop :=
  ∃ n, resolveRef doc n node = some v

theorem Resolves.unique (h : Resolves doc node v) (h' : Resolves doc node w) : v = w := by
  obtain ⟨m, h⟩ := h
  obtain ⟨n, h'⟩ := h'
  exact Option.some.inj <| (resolveRef_mono h <| Nat.le_max_left m n).symm.trans <| resolveRef_mono h' <| Nat.le_max_right m n

theorem resolves_self (h : node.ref? = none) : Resolves doc node v ↔ v = node := by
  constructor
  case mp =>
    rintro ⟨n, hn⟩
    cases n
    case zero   => cases hn
    case succ n =>
      rw [resolveRef, h] at hn
      exact (Option.some.inj hn).symm
  case mpr =>
    rintro rfl
    exact ⟨1, by rw [resolveRef, h]⟩

theorem resolves_ref {r : String} (h : node.ref? = some r) : Resolves doc node v ↔ Resolves doc (doc.follow r) v := by
  constructor
  case mp =>
    rintro ⟨n, hn⟩
    cases n
    case zero   => cases hn
    case succ n =>
      rw [resolveRef, h] at hn
      exact ⟨n, hn⟩
  case mpr =>
    rintro ⟨n, hn⟩
    exact ⟨n + 1, by rwa [resolveRef, h]⟩

end Resolve

theorem enter_eq_some {o : Option Shared} : (schemas loxilb gateway).enter n p = some o ↔
    ∃ l g, resolveRef loxilb n p.lNode = some l ∧ resolveRef gateway n p.gNode = some g ∧
      o = if l.truthy && g.truthy then some ⟨p.ctx, l, g⟩ else none := by
  simp only [schemas, Option.bind_eq_bind, Option.bind_eq_some_iff, Option.pure_def, Option.some.injEq]
  constructor
  · rintro ⟨l, hl, g, hg, ho⟩
    exact ⟨l, g, hl, hg, ho.symm⟩
  · rintro ⟨l, g, hl, hg, ho⟩
    exact ⟨l, hl, g, hg, ho.symm⟩

theorem schemas_stable : (schemas loxilb gateway).Stable := by
  intro m n p o o' h h'
  obtain ⟨l, g, hl, hg, rfl⟩ := enter_eq_some.mp h
  obtain ⟨l', g', hl', hg', rfl⟩ := enter_eq_some.mp h'
  obtain rfl := Resolves.unique ⟨m, hl⟩ ⟨n, hl'⟩
  obtain rfl := Resolves.unique ⟨m, hg⟩ ⟨n, hg'⟩
  rfl

theorem opens_iff : (schemas loxilb gateway).Opens p s ↔
    Resolves loxilb p.lNode s.l ∧ Resolves gateway p.gNode s.g ∧ s.l.truthy = true ∧ s.g.truthy = true ∧ s.ctx = p.ctx := by
  constructor
  case mp =>
    rintro ⟨n, hn⟩
    obtain ⟨l, g, hl, hg, ho⟩ := enter_eq_some.mp hn
    split at ho
    case isTrue ht  =>
      obtain rfl := Option.some.inj ho
      rw [Bool.and_eq_true] at ht
      exact ⟨⟨n, hl⟩, ⟨n, hg⟩, ht.1, ht.2, rfl⟩
    case isFalse    => cases ho
  case mpr =>
    rintro ⟨⟨m, hl⟩, ⟨n, hg⟩, ht, ht', hc⟩
    refine ⟨max m n, enter_eq_some.mpr ⟨s.l, s.g, resolveRef_mono hl <| Nat.le_max_left m n,
      resolveRef_mono hg <| Nat.le_max_right m n, ?_⟩⟩
    rw [ht, ht', ← hc]
    rfl

theorem Opens.unique (h : (schemas loxilb gateway).Opens p s) (h' : (schemas loxilb gateway).Opens p t) : s = t := by
  obtain ⟨m, h⟩ := h
  obtain ⟨n, h'⟩ := h'
  exact Option.some.inj <| schemas_stable m n p _ _ h h'

-- A place that both specifications declare.
def At (loxilb gateway : JsValue) (p : Position) : Prop :=
  (schemas loxilb gateway).Reach (sharedDefs loxilb gateway) p

def SharedAt (loxilb gateway : JsValue) (s : Shared) : Prop :=
  ∃ p, At loxilb gateway p ∧ (schemas loxilb gateway).Opens p s

section Context

def isPlain (name : String) : Bool :=
  name.toList.all (· ∉ ['.', '[', ']'])

-- No name has a part in it that stands for a way.
structure PlainNames (loxilb gateway : JsValue) : Prop where
  defs  : ∀ d ∈ (loxilb.get "definitions").keys, isPlain d = true ∧ d ≠ "__proto__"
  props : ∀ s, SharedAt loxilb gateway s → ∀ name ∈ (s.l.get "properties").keys, isPlain name = true

-- Where one specification refers to another place, the other does so too, and the two references can be told apart
-- in the key.
def UniformRefs (loxilb gateway : JsValue) : Prop :=
  ∀ p, At loxilb gateway p → (p.lNode.ref? = none ↔ p.gNode.ref? = none) ∧ ∀ r ∈ p.lNode.ref?, '=' ∉ r.toList

theorem cut_inj {P : Char → Prop} {l l' r r' : List Char} {a b : Char} (hl : ∀ c ∈ r, P c) (hl' : ∀ c ∈ r', P c)
    (ha : ¬P a) (hb : ¬P b) (h : l ++ a :: r = l' ++ b :: r') : l = l' ∧ a = b ∧ r = r' := by
  rcases List.append_eq_append_iff.mp h with ⟨m, hm, hs⟩ | ⟨m, hm, hs⟩
  all_goals
    cases m
    case nil => simp_all
    case cons c m => simp_all

theorem cut_head_inj {l l' r r' : List Char} {a : Char} (hl : a ∉ l) (hl' : a ∉ l') (h : l ++ a :: r = l' ++ a :: r') :
    l = l' ∧ r = r' := by
  rcases List.append_eq_append_iff.mp h with ⟨m, hm, hs⟩ | ⟨m, hm, hs⟩
  all_goals
    cases m
    case nil => simp_all
    case cons c m => simp_all

theorem mem_sharedDefs : p ∈ sharedDefs loxilb gateway ↔ ∃ d ∈ (loxilb.get "definitions").keys,
    (gateway.get "definitions").declaresIn d = true ∧
    p = ⟨d, (loxilb.get "definitions").get d, (gateway.get "definitions").get d⟩ := by
  simp only [sharedDefs, List.mem_map, JsString.sort_perm.mem_iff, List.mem_filter]
  constructor
  · rintro ⟨d, ⟨hd, hg⟩, rfl⟩
    exact ⟨d, hd, hg, rfl⟩
  · rintro ⟨d, hd, hg, rfl⟩
    exact ⟨d, ⟨hd, hg⟩, rfl⟩

theorem mem_props : p ∈ s.props ↔ ∃ name ∈ (s.l.get "properties").keys,
    (s.g.get "properties").declaresIn name = true ∧
    p = ⟨s.ctx ++ "." ++ name, (s.l.get "properties").get name, (s.g.get "properties").get name⟩ := by
  simp only [Shared.props, List.mem_map, List.mem_filter]
  constructor
  · rintro ⟨d, ⟨hd, hg⟩, rfl⟩
    exact ⟨d, hd, hg, rfl⟩
  · rintro ⟨d, hd, hg, rfl⟩
    exact ⟨d, ⟨hd, hg⟩, rfl⟩

theorem mem_element : p ∈ s.element ↔ (s.l.get "items").truthy = true ∧ (s.g.get "items").truthy = true ∧
    p = ⟨s.ctx ++ "[]", s.l.get "items", s.g.get "items"⟩ := by
  rw [Shared.element]
  split
  case isTrue h  =>
    rw [Bool.and_eq_true] at h
    simp [h]
  case isFalse h =>
    rw [Bool.and_eq_true] at h
    simp only [List.not_mem_nil, false_iff]
    exact fun ⟨hl, hg, _⟩ => h ⟨hl, hg⟩

-- A way is cut into the way before and the last step of it, in one manner only.
theorem mem_children_cut (hp : PlainNames loxilb gateway) (hs : SharedAt loxilb gateway s)
    (hm : p ∈ (schemas loxilb gateway).children s) :
    ∃ x a r, p.ctx.toList = s.ctx.toList ++ x ++ a :: r ∧ a ∈ ['.', '[', ']'] ∧ (∀ c ∈ r, c ∉ ['.', '[', ']']) ∧
      ((a = '.' ∧ x = [] ∧ p = ⟨s.ctx ++ "." ++ .ofList r, (s.l.get "properties").get (.ofList r),
        (s.g.get "properties").get (.ofList r)⟩) ∨
      (a = ']' ∧ x = ['['] ∧ p = ⟨s.ctx ++ "[]", s.l.get "items", s.g.get "items"⟩)) := by
  rcases List.mem_append.mp hm with hm | hm
  · obtain ⟨name, hn, -, rfl⟩ := mem_props.mp hm
    have hr := List.all_eq_true.mp <| hp.props s hs name hn
    refine ⟨[], '.', name.toList, by simp, by simp, fun c hc => of_decide_eq_true <| hr c hc, .inl ⟨rfl, rfl, ?_⟩⟩
    rw [String.ofList_toList]
  · obtain ⟨-, -, rfl⟩ := mem_element.mp hm
    exact ⟨['['], ']', [], by simp, by simp, by simp, .inr ⟨rfl, rfl, rfl⟩⟩

theorem children_inj (hp : PlainNames loxilb gateway) (hs : SharedAt loxilb gateway s) (ht : SharedAt loxilb gateway t)
    (hm : p ∈ (schemas loxilb gateway).children s) (hm' : q ∈ (schemas loxilb gateway).children t)
    (h : p.ctx = q.ctx) : s.ctx = t.ctx ∧ (s = t → p = q) := by
  obtain ⟨x, a, r, hc, ha, hr, hk⟩ := mem_children_cut hp hs hm
  obtain ⟨x', a', r', hc', ha', hr', hk'⟩ := mem_children_cut hp ht hm'
  rw [h, hc'] at hc
  obtain ⟨hx, rfl, rfl⟩ := cut_inj (P := (· ∉ ['.', '[', ']'])) hr' hr (not_not.mpr ha') (not_not.mpr ha) hc
  rcases hk with ⟨rfl, rfl, rfl⟩ | ⟨rfl, rfl, rfl⟩ <;> rcases hk' with ⟨hd, rfl, rfl⟩ | ⟨hd, rfl, rfl⟩
  · exact ⟨String.toList_inj.mp <| by simpa using hx.symm, fun hst => by rw [hst]⟩
  · cases hd
  · cases hd
  · exact ⟨String.toList_inj.mp <| by simpa using hx.symm, fun hst => by rw [hst]⟩

theorem not_plain_of_child (hp : PlainNames loxilb gateway) (hs : SharedAt loxilb gateway s)
    (hm : p ∈ (schemas loxilb gateway).children s) : isPlain p.ctx = false := by
  obtain ⟨x, a, r, hc, ha, -⟩ := mem_children_cut hp hs hm
  rw [isPlain, hc, List.all_eq_false]
  exact ⟨a, by simp, fun hn => of_decide_eq_true hn ha⟩

theorem plain_of_root (hp : PlainNames loxilb gateway) (hm : p ∈ sharedDefs loxilb gateway) :
    isPlain p.ctx = true ∧ p.ctx ≠ "__proto__" := by
  obtain ⟨d, hd, -, rfl⟩ := mem_sharedDefs.mp hm
  exact hp.defs d hd

-- Every context is that of one place.
theorem ctx_inj (hp : PlainNames loxilb gateway) (h : At loxilb gateway p) (h' : At loxilb gateway q)
    (hc : p.ctx = q.ctx) : p = q := by
  induction h generalizing q
  case root hm =>
    cases h'
    case root hm' =>
      obtain ⟨d, -, -, rfl⟩ := mem_sharedDefs.mp hm
      obtain ⟨d', -, -, rfl⟩ := mem_sharedDefs.mp hm'
      obtain rfl : d = d' := hc
      rfl
    case child hr ho hm' =>
      have hn := not_plain_of_child hp ⟨_, hr, ho⟩ hm'
      rw [← hc, (plain_of_root hp hm).1] at hn
      cases hn
  case child hr ho hm hi =>
    cases h'
    case root hm' =>
      have hn := not_plain_of_child hp ⟨_, hr, ho⟩ hm
      rw [hc, (plain_of_root hp hm').1] at hn
      cases hn
    case child hr' ho' hm' =>
      obtain ⟨hs, he⟩ := children_inj hp ⟨_, hr, ho⟩ ⟨_, hr', ho'⟩ hm hm' hc
      have hpq := hi hr' <| (opens_iff.mp ho).2.2.2.2.symm.trans <| hs.trans (opens_iff.mp ho').2.2.2.2
      exact he <| Opens.unique ho <| hpq ▸ ho'

theorem sharedAt_inj (hp : PlainNames loxilb gateway) (h : SharedAt loxilb gateway s) (h' : SharedAt loxilb gateway t)
    (hc : s.ctx = t.ctx) : s = t := by
  obtain ⟨p, hr, ho⟩ := h
  obtain ⟨q, hr', ho'⟩ := h'
  have hpq := ctx_inj hp hr hr' <| (opens_iff.mp ho).2.2.2.2.symm.trans <| hc.trans (opens_iff.mp ho').2.2.2.2
  exact Opens.unique ho <| hpq ▸ ho'

theorem ctx_ne_proto (hp : PlainNames loxilb gateway) (h : SharedAt loxilb gateway s) : s.ctx ≠ "__proto__" := by
  obtain ⟨p, hr, ho⟩ := h
  rw [(opens_iff.mp ho).2.2.2.2]
  cases hr
  case root hm         => exact (plain_of_root hp hm).2
  case child hr ho hm =>
    intro he
    have hn := not_plain_of_child hp ⟨_, hr, ho⟩ hm
    rw [he] at hn
    revert hn
    decide

end Context

end Capabilities
