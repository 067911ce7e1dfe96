import LoxilbUi.Api.Theorems.Schemas

-- The generator ends on any two specifications in which no chain of references goes in a circle, although the
-- schemas behind the references may.

namespace JsValue

def reference : JsValue → List String
  | string r => [r]
  | _        => []

mutual

-- The references that stand anywhere in a value.
def refs : JsValue → List String
  | array vs  => itemRefs vs
  | object ms => memberRefs ms
  | _         => []

def itemRefs : List JsValue → List String
  | []      => []
  | v :: vs => v.refs ++ itemRefs vs

def memberRefs : List (String × JsValue) → List String
  | []             => []
  | (key, v) :: ms => (if key = "$ref" then v.reference else []) ++ v.refs ++ memberRefs ms

end

mutual

def depth : JsValue → Nat
  | array vs  => itemsDepth vs + 1
  | object ms => membersDepth ms + 1
  | _         => 0

def itemsDepth : List JsValue → Nat
  | []      => 0
  | v :: vs => max v.depth (itemsDepth vs)

def membersDepth : List (String × JsValue) → Nat
  | []           => 0
  | (_, v) :: ms => max v.depth (membersDepth ms)

end

variable {v w : JsValue} {vs : List JsValue} {ms : List (String × JsValue)} {key : String} {path : List String}

theorem mem_items (h : v ∈ vs) : v.refs ⊆ itemRefs vs ∧ v.depth ≤ itemsDepth vs := by
  induction vs
  case nil => cases h
  case cons u vs hi =>
    rw [itemRefs, itemsDepth]
    rcases List.mem_cons.mp h with rfl | h
    · exact ⟨List.subset_append_left _ _, Nat.le_max_left _ _⟩
    · exact ⟨List.Subset.trans (hi h).1 <| List.subset_append_right _ _, (hi h).2.trans <| Nat.le_max_right _ _⟩

theorem mem_members (h : (key, v) ∈ ms) : v.refs ⊆ memberRefs ms ∧ v.depth ≤ membersDepth ms ∧
    ∀ r, key = "$ref" → v = string r → r ∈ memberRefs ms := by
  induction ms
  case nil => cases h
  case cons m ms hi =>
    obtain ⟨k, u⟩ := m
    rw [memberRefs, membersDepth]
    rcases List.mem_cons.mp h with he | h
    · obtain ⟨rfl, rfl⟩ := Prod.mk.inj he
      refine ⟨fun r hr => ?_, Nat.le_max_left _ _, fun r hk hv => ?_⟩
      · exact List.mem_append_left _ <| List.mem_append_right _ hr
      · subst hk hv
        simp [reference]
    · obtain ⟨hr, hd, hs⟩ := hi h
      refine ⟨fun r hm => List.mem_append_right _ <| hr hm, hd.trans <| Nat.le_max_right _ _, fun r hk hv => ?_⟩
      exact List.mem_append_right _ <| hs r hk hv

theorem get_cases (v : JsValue) (key : String) : (∃ ms, v = object ms ∧ (key, v.get key) ∈ ms) ∨ (∃ vs, v = array vs ∧ v.get key ∈ vs) ∨
    (v.get key).refs = [] ∧ (v.get key).depth = 0 := by
  cases v
  case object ms =>
    rcases @object_get_mem ms key with hm | hu
    · exact .inl ⟨ms, rfl, hm⟩
    · exact .inr <| .inr <| by simp [hu, refs, depth]
  case array vs  =>
    rw [get]
    split
    case isTrue  => exact .inr <| .inr <| by simp [refs, depth]
    case isFalse =>
      cases hf : vs.zipIdx.find? fun p => p.2.repr = key
      case none   => exact .inr <| .inr <| by simp [refs, depth]
      case some p =>
        refine .inr <| .inl ⟨vs, rfl, ?_⟩
        exact List.mem_of_getElem? <| List.mem_zipIdx_iff_getElem?.mp <| List.mem_of_find?_eq_some hf
  all_goals exact .inr <| .inr <| by simp [get, refs, depth]

theorem refs_get : (v.get key).refs ⊆ v.refs := by
  rcases get_cases v key with ⟨ms, hv, hm⟩ | ⟨vs, hv, hm⟩ | ⟨hr, -⟩
  · exact List.Subset.trans (mem_members hm).1 <| by rw [hv, refs]; exact List.Subset.refl _
  · exact List.Subset.trans (mem_items hm).1 <| by rw [hv, refs]; exact List.Subset.refl _
  · rw [hr]
    exact List.nil_subset _

theorem depth_get (v : JsValue) (key : String) : (v.get key).depth ≤ v.depth - 1 := by
  rcases get_cases v key with ⟨ms, hv, hm⟩ | ⟨vs, hv, hm⟩ | ⟨-, hd⟩
  · exact (mem_members hm).2.1.trans <| by rw [hv, depth]; exact Nat.le_refl _
  · exact (mem_items hm).2.trans <| by rw [hv, depth]; exact Nat.le_refl _
  · rw [hd]
    exact Nat.zero_le _

theorem look_le : (v.look path).refs ⊆ v.refs ∧ (v.look path).depth ≤ v.depth := by
  induction path generalizing v
  case nil => exact ⟨List.Subset.refl _, Nat.le_refl _⟩
  case cons key path hi =>
    obtain ⟨hr, hd⟩ := @hi (v.get key)
    exact ⟨List.Subset.trans hr refs_get, hd.trans <| (depth_get _ _).trans <| Nat.sub_le _ _⟩

theorem mem_refs_of_ref? {r : String} (h : v.ref? = some r) : r ∈ v.refs := by
  rw [ref?] at h
  split at h
  case h_1 s hs =>
    split at h
    case isTrue  => cases h
    case isFalse =>
      obtain rfl := Option.some.inj h
      cases v
      case object ms =>
        rcases @object_get_mem ms "$ref" with hm | hu
        · exact (mem_members hm).2.2 s rfl hs
        · cases hs.symm.trans hu
      case array vs  =>
        rw [get, if_neg <| by decide] at hs
        cases hf : vs.zipIdx.find? fun p => p.2.repr = "$ref"
        case none   =>
          rw [hf] at hs
          cases hs
        case some p =>
          have hp : p.2.repr = "$ref" := by simpa using List.find?_some hf
          have hd : '$' ∈ Nat.toDigits 10 p.2 := by
            rw [← Nat.toList_repr, hp]
            decide
          exact absurd (Nat.isDigit_of_mem_toDigits (by decide) (by decide) hd) <| by decide
      all_goals cases hs
  case h_2 => cases h

end JsValue

namespace Capabilities

variable {loxilb gateway doc node v : JsValue} {p : Position} {s : Shared} {n : Nat}

theorem resolves_le (h : Resolves doc node v) :
    (∀ r ∈ v.refs, r ∈ node.refs ∨ r ∈ doc.refs) ∧ v.depth ≤ max node.depth doc.depth := by
  obtain ⟨n, h⟩ := h
  induction n generalizing node
  case zero => cases h
  case succ n hi =>
    rw [resolveRef] at h
    split at h
    case h_1 r _ =>
      obtain ⟨hr, hd⟩ := hi h
      have hl : (doc.follow r).refs ⊆ doc.refs ∧ (doc.follow r).depth ≤ doc.depth := JsValue.look_le
      refine ⟨fun r hm => .inr <| (hr r hm).elim (fun hm => hl.1 hm) id, hd.trans ?_⟩
      rw [Nat.max_eq_right hl.2]
      exact Nat.le_max_right _ _
    case h_2     =>
      obtain rfl := Option.some.inj h
      exact ⟨fun _ hm => .inl hm, Nat.le_max_left _ _⟩

-- What stands at a place is a part of its document.
structure Within (doc node : JsValue) : Prop where
  refs  : node.refs ⊆ doc.refs
  depth : node.depth ≤ doc.depth

theorem Within.get {key : String} (h : Within doc node) : Within doc (node.get key) where
  refs  := List.Subset.trans JsValue.refs_get h.refs
  depth := (JsValue.depth_get _ _).trans <| (Nat.sub_le _ _).trans h.depth

theorem Within.resolves (h : Within doc node) (hr : Resolves doc node v) : Within doc v where
  refs _ hm := ((resolves_le hr).1 _ hm).elim (fun hm => h.refs hm) id
  depth     := (resolves_le hr).2.trans <| Nat.max_le.mpr ⟨h.depth, Nat.le_refl _⟩

theorem within_self : Within doc doc where
  refs  := List.Subset.refl _
  depth := Nat.le_refl _

theorem within_of_at (h : At loxilb gateway p) : Within loxilb p.lNode ∧ Within gateway p.gNode := by
  induction h
  case root hm =>
    obtain ⟨d, -, -, rfl⟩ := mem_sharedDefs.mp hm
    exact ⟨within_self.get.get, within_self.get.get⟩
  case child ho hm hi =>
    obtain ⟨hl, hg, -⟩ := opens_iff.mp ho
    have hwl := hi.1.resolves hl
    have hwg := hi.2.resolves hg
    rcases List.mem_append.mp hm with hm | hm
    · obtain ⟨name, -, -, rfl⟩ := mem_props.mp hm
      exact ⟨hwl.get.get, hwg.get.get⟩
    · obtain ⟨-, -, rfl⟩ := mem_element.mp hm
      exact ⟨hwl.get, hwg.get⟩

-- Below a place the way gets shorter, if no reference begins another one.
theorem depth_child (ho : (schemas loxilb gateway).Opens p s) (hk : p.lNode.ref? = none) {c : Position}
    (hm : c ∈ (schemas loxilb gateway).children s) : c.lNode.depth < p.lNode.depth := by
  obtain ⟨hl, -⟩ := opens_iff.mp ho
  rw [resolves_self hk] at hl
  rw [← hl]
  have hpos (v : JsValue) (key : String) (h : v.get key ≠ .undefined) : 0 < v.depth := by
    cases v <;> simp_all [JsValue.get, JsValue.depth]
  rcases List.mem_append.mp hm with hm | hm
  · obtain ⟨name, hn, -, rfl⟩ := mem_props.mp hm
    have hp : (s.l.get "properties") ≠ .undefined := fun hu => by simp [hu, JsValue.keys] at hn
    have hd := JsValue.depth_get s.l "properties"
    have hd' := JsValue.depth_get (s.l.get "properties") name
    have hs := hpos _ _ hp
    simp only
    omega
  · obtain ⟨ht, -, rfl⟩ := mem_element.mp hm
    have hp : (s.l.get "items") ≠ .undefined := fun hu => by simp [hu, JsValue.truthy] at ht
    have hd := JsValue.depth_get s.l "items"
    have hs := hpos _ _ hp
    simp only
    omega

-- No chain of references goes in a circle.
def ChainsEnd (doc : JsValue) : Prop :=
  ∀ r ∈ doc.refs, ∃ v, Resolves doc (doc.follow r) v

theorem exists_bound {l : List String} (h : ∀ r ∈ l, ∃ v, Resolves doc (doc.follow r) v) :
    ∃ N, ∀ r ∈ l, ∀ n, N ≤ n → (resolveRef doc n <| doc.follow r).isSome = true := by
  induction l
  case nil => exact ⟨0, by simp⟩
  case cons r l hi =>
    obtain ⟨N, hN⟩ := hi fun r' hr => h r' <| List.mem_cons_of_mem r hr
    obtain ⟨v, m, hv⟩ := h r List.mem_cons_self
    refine ⟨max m N, List.forall_mem_cons.mpr ⟨fun n hn => ?_, fun r' hr n hn => ?_⟩⟩
    · rw [resolveRef_mono hv <| (Nat.le_max_left _ _).trans hn]
      rfl
    · exact hN r' hr n <| (Nat.le_max_right _ _).trans hn

theorem resolve_bound (h : ChainsEnd doc) :
    ∃ N, ∀ node, Within doc node → ∀ n, N ≤ n → ∃ v, resolveRef doc n node = some v := by
  obtain ⟨N, hN⟩ := exists_bound h
  refine ⟨N + 1, fun node hw n hn => ?_⟩
  obtain ⟨n, rfl⟩ := Nat.exists_eq_add_of_le' (Nat.lt_of_lt_of_le N.succ_pos hn)
  rw [resolveRef]
  split
  case h_1 r hr =>
    exact Option.isSome_iff_exists.mp <| hN r (hw.refs <| JsValue.mem_refs_of_ref? hr) n <| Nat.le_of_succ_le_succ hn
  case h_2      => exact ⟨node, rfl⟩

def walkKeys (loxilb gateway : JsValue) : List String :=
  ("" :: loxilb.refs).flatMap fun l => ("" :: gateway.refs).map fun g => l ++ "=>" ++ g

theorem mem_walkKeys {k : String} (hl : Within loxilb p.lNode) (hg : Within gateway p.gNode)
    (h : (schemas loxilb gateway).key p = some k) : k ∈ walkKeys loxilb gateway := by
  have hm (doc node : JsValue) (hw : Within doc node) : node.ref?.getD "" ∈ "" :: doc.refs := by
    cases hr : node.ref?
    case none   => exact List.mem_cons_self
    case some r => exact List.mem_cons_of_mem _ <| hw.refs <| JsValue.mem_refs_of_ref? hr
  simp only [schemas] at h
  split at h
  case h_1 => cases h
  case h_2 =>
    obtain rfl := Option.some.inj h
    exact List.mem_flatMap.mpr ⟨_, hm _ _ hl, List.mem_map.mpr ⟨_, hm _ _ hg, rfl⟩⟩

-- However the schemas refer to each other, the script writes a map.
theorem capabilityMap_returns (hl : ChainsEnd loxilb) (hg : ChainsEnd gateway) :
    ∃ N, ∀ n, N ≤ n → ∃ map, capabilityMap loxilb gateway n = some map := by
  obtain ⟨L, hL⟩ := resolve_bound hl
  obtain ⟨G, hG⟩ := resolve_bound hg
  have hb : (schemas loxilb gateway).Bounded (sharedDefs loxilb gateway) (·.lNode.depth) (walkKeys loxilb gateway)
      (max L G) loxilb.depth := by
    constructor
    case found =>
      intro p n hp hn
      obtain ⟨hwl, hwg⟩ := within_of_at hp
      obtain ⟨l, hl⟩ := hL p.lNode hwl n <| (Nat.le_max_left _ _).trans hn
      obtain ⟨g, hg⟩ := hG p.gNode hwg n <| (Nat.le_max_right _ _).trans hn
      rw [enter_eq_some.mpr ⟨l, g, hl, hg, rfl⟩]
      rfl
    case keyed =>
      intro p k hp hk
      exact mem_walkKeys (within_of_at hp).1 (within_of_at hp).2 hk
    case below =>
      intro p s c _ hk ho hm
      refine depth_child ho ?_ hm
      simp only [schemas] at hk
      split at hk
      case h_1 hl _ => exact hl
      case h_2      => cases hk
    case rank  => exact fun p hp => (within_of_at hp).1.depth
  refine ⟨max L G + (walkKeys loxilb gateway).length * (loxilb.depth + 1) + loxilb.depth + 1, fun n hn => ?_⟩
  obtain ⟨state, hw⟩ := @Traversal.walkAll_roots_returns _ _ _ _ _ record n _ _ _ _ _ _ ⟨.empty, .empty⟩ hb <| Nat.lt_of_succ_le hn
  rw [capabilityMap, hw]
  exact ⟨_, rfl⟩

end Capabilities
