import LoxilbUi.Api.Theorems.References

-- What the generated map says of the two specifications, and what the gates that read it let through.

namespace Capabilities

variable {loxilb gateway : JsValue} {n : Nat} {map : CapabilityMap} {p q : Position} {s t : Shared} {ctx : String}

section Notes

variable {α β : Type} {d : Dict (List β)} {key k : String} {extra e : List β} {f : α → String} {x : α → List β}
variable {l : List α}

theorem get?_note : (note d key extra).get? k =
    if k = key ∧ extra ≠ [] ∧ key ≠ "__proto__" then some extra else d.get? k := by
  rw [note]
  split
  case isTrue h  =>
    have he : extra = [] := List.isEmpty_iff.mp h
    simp [he]
  case isFalse h =>
    have he : extra ≠ [] := fun he => h <| List.isEmpty_iff.mpr he
    simp [PlainObject.get?_assign, he]

def notes (f : α → String) (x : α → List β) (l : List α) (d : Dict (List β)) : Dict (List β) :=
  l.foldl (fun d a => note d (f a) (x a)) d

theorem notes_sound (h : (notes f x l d).get? k = some e) :
    d.get? k = some e ∨ ∃ a ∈ l, f a = k ∧ x a = e ∧ e ≠ [] := by
  induction l generalizing d
  case nil => exact .inl h
  case cons a l hi =>
    rcases hi h with h | ⟨b, hb, h⟩
    · rw [get?_note] at h
      split at h
      case isTrue hk  =>
        obtain rfl := Option.some.inj h
        exact .inr ⟨a, List.mem_cons_self, hk.1.symm, rfl, hk.2.1⟩
      case isFalse hk => exact .inl h
    · exact .inr ⟨b, List.mem_cons_of_mem a hb, h⟩

-- Of a key that is always noted alike, the note is read.
theorem getD_notes (hx : ∀ a ∈ l, f a = k → x a = e) (hk : k ≠ "__proto__")
    (hd : (∃ a ∈ l, f a = k) ∧ d.get? k = none ∨ (d.get? k).getD [] = e) : ((notes f x l d).get? k).getD [] = e := by
  induction l generalizing d
  case nil =>
    rcases hd with ⟨⟨a, ha, -⟩, -⟩ | hd
    · cases ha
    · exact hd
  case cons a l hi =>
    refine hi (fun b hb => hx b <| List.mem_cons_of_mem a hb) ?_
    rw [get?_note]
    by_cases ha : f a = k
    · have he := hx a List.mem_cons_self ha
      rw [he, ha]
      split
      case isTrue   => exact .inr rfl
      case isFalse hn =>
        have hz : e = [] := not_not.mp fun hz => hn ⟨rfl, hz, hk⟩
        rcases hd with ⟨-, hd⟩ | hd
        · exact .inr <| by rw [hd, hz, Option.getD_none]
        · exact .inr hd
    · rw [if_neg fun h => ha h.1.symm]
      rcases hd with ⟨⟨b, hb, hbk⟩, hd⟩ | hd
      · rcases List.mem_cons.mp hb with rfl | hb
        · exact absurd hbk ha
        · exact .inl ⟨⟨b, hb, hbk⟩, hd⟩
      · exact .inr hd

end Notes

section Walk

theorem fields_record {ws : List Shared} {found : Found} :
    (ws.foldl (fun found s => record s found) found).fields = notes Shared.ctx Shared.extraProps ws found.fields := by
  induction ws generalizing found
  case nil          => rfl
  case cons s ws hi => exact hi

theorem enumValues_record {ws : List Shared} {found : Found} :
    (ws.foldl (fun found s => record s found) found).enumValues =
      notes Shared.ctx Shared.extraValues ws found.enumValues := by
  induction ws generalizing found
  case nil          => rfl
  case cons s ws hi => exact hi

-- The map is made of what was recorded on one walk through both specifications.
structure Made (loxilb gateway : JsValue) (map : CapabilityMap) (seen : List String) (ws : List Shared) : Prop where
  walked     : (schemas loxilb gateway).Walked (sharedDefs loxilb gateway) [] seen ws
  fields     : map.gatewayOnlyFields = notes Shared.ctx Shared.extraProps ws .empty
  enumValues : map.gatewayOnlyEnumValues = notes Shared.ctx Shared.extraValues ws .empty

theorem made_of_capabilityMap (h : capabilityMap loxilb gateway n = some map) : ∃ seen ws, Made loxilb gateway map seen ws := by
  obtain ⟨⟨seen, found⟩, hw, hm⟩ := Option.bind_eq_some_iff.mp h
  obtain rfl := Option.some.inj hm
  obtain ⟨ws, hf, hw⟩ := Traversal.ends_walkAll (fun _ _ _ => Traversal.ends_walk schemas_stable) hw
  simp only at hf hw
  refine ⟨seen, ws, hw, ?_, ?_⟩
  · rw [hf]
    exact fields_record
  · rw [hf]
    exact enumValues_record

variable {seen : List String} {ws : List Shared}

theorem Made.sharedAt (h : Made loxilb gateway map seen ws) (hm : s ∈ ws) : SharedAt loxilb gateway s :=
  h.walked.sound s hm

-- What is read of the context of a place that was recorded.
theorem Made.getD_fields (hp : PlainNames loxilb gateway) (h : Made loxilb gateway map seen ws) (hm : s ∈ ws) :
    (map.gatewayOnlyFields.get? s.ctx).getD [] = s.extraProps := by
  rw [h.fields]
  refine getD_notes (fun t ht hc => ?_) (ctx_ne_proto hp <| h.sharedAt hm) <| .inl ⟨⟨s, hm, rfl⟩, rfl⟩
  rw [sharedAt_inj hp (h.sharedAt ht) (h.sharedAt hm) hc]

theorem Made.getD_enumValues (hp : PlainNames loxilb gateway) (h : Made loxilb gateway map seen ws) (hm : s ∈ ws) :
    (map.gatewayOnlyEnumValues.get? s.ctx).getD [] = s.extraValues := by
  rw [h.enumValues]
  refine getD_notes (fun t ht hc => ?_) (ctx_ne_proto hp <| h.sharedAt hm) <| .inl ⟨⟨s, hm, rfl⟩, rfl⟩
  rw [sharedAt_inj hp (h.sharedAt ht) (h.sharedAt hm) hc]

end Walk

section Covers

theorem key_eq_some (hu : UniformRefs loxilb gateway) (hp : At loxilb gateway p) {k : String}
    (h : (schemas loxilb gateway).key p = some k) :
    ∃ l g, p.lNode.ref? = some l ∧ p.gNode.ref? = some g ∧ k = l ++ "=>" ++ g ∧ '=' ∉ l.toList := by
  obtain ⟨hn, he⟩ := hu p hp
  simp only [schemas] at h
  cases hl : p.lNode.ref?
  case none =>
    rw [hl, hn.mp hl] at h
    cases h
  case some l =>
    cases hg : p.gNode.ref?
    case none =>
      rw [hn.mpr hg] at hl
      cases hl
    case some g =>
      rw [hl, hg] at h
      exact ⟨l, g, rfl, rfl, (Option.some.inj h).symm, he l hl⟩

def Alike (loxilb gateway : JsValue) (p q : Position) : Prop :=
  (∀ v, Resolves loxilb p.lNode v ↔ Resolves loxilb q.lNode v) ∧ ∀ v, Resolves gateway p.gNode v ↔ Resolves gateway q.gNode v

theorem alike_of_key (hu : UniformRefs loxilb gateway) (hp : At loxilb gateway p) (hq : At loxilb gateway q) {k : String}
    (h : (schemas loxilb gateway).key p = some k) (h' : (schemas loxilb gateway).key q = some k) :
    Alike loxilb gateway p q := by
  obtain ⟨l, g, hl, hg, rfl, he⟩ := key_eq_some hu hp h
  obtain ⟨l', g', hl', hg', hk, he'⟩ := key_eq_some hu hq h'
  have hc : l.toList ++ '=' :: '>' :: g.toList = l'.toList ++ '=' :: '>' :: g'.toList := by
    simpa [String.toList_append] using congrArg String.toList hk
  obtain ⟨hj, hj'⟩ := cut_head_inj he he' hc
  obtain rfl := String.toList_inj.mp hj
  obtain rfl := String.toList_inj.mp (List.cons.inj hj').2
  constructor
  · intro v
    rw [resolves_ref hl, resolves_ref hl']
  · intro v
    rw [resolves_ref hg, resolves_ref hg']

theorem likeness (hu : UniformRefs loxilb gateway) :
    (schemas loxilb gateway).Likeness (sharedDefs loxilb gateway) (Alike loxilb gateway)
      fun s t => s.l = t.l ∧ s.g = t.g where
  refl _             := ⟨fun _ => Iff.rfl, fun _ => Iff.rfl⟩
  trans _ _ _ h h'   := ⟨fun v => (h.1 v).trans (h'.1 v), fun v => (h.2 v).trans (h'.2 v)⟩
  key _ _ _ hp hq    := alike_of_key hu hp hq
  opens p q s h ho   := by
    obtain ⟨hl, hg, ht, ht', -⟩ := opens_iff.mp ho
    exact ⟨⟨p.ctx, s.l, s.g⟩, opens_iff.mpr ⟨(h.1 _).mpr hl, (h.2 _).mpr hg, ht, ht', rfl⟩, rfl, rfl⟩
  children s t h p hp := by
    rcases List.mem_append.mp hp with hp | hp
    · obtain ⟨name, hn, hd, rfl⟩ := mem_props.mp hp
      refine ⟨_, List.mem_append_left _ <| mem_props.mpr ⟨name, h.1 ▸ hn, h.2 ▸ hd, rfl⟩, ?_⟩
      rw [Alike, h.1, h.2]
      exact ⟨fun _ => Iff.rfl, fun _ => Iff.rfl⟩
    · obtain ⟨hl, hg, rfl⟩ := mem_element.mp hp
      refine ⟨_, List.mem_append_right _ <| mem_element.mpr ⟨h.1 ▸ hl, h.2 ▸ hg, rfl⟩, ?_⟩
      rw [Alike, h.1, h.2]
      exact ⟨fun _ => Iff.rfl, fun _ => Iff.rfl⟩

end Covers

section Inline

-- A place that no reference leads to.
inductive Inline (loxilb gateway : JsValue) : Position → Prop
  | root {a} : a ∈ sharedDefs loxilb gateway → (schemas loxilb gateway).key a = none → Inline loxilb gateway a
  | child {a b c} : Inline loxilb gateway a → (schemas loxilb gateway).Opens a b →
      c ∈ (schemas loxilb gateway).children b → (schemas loxilb gateway).key c = none → Inline loxilb gateway c

variable {seen : List String} {ws : List Shared}

theorem entered_of_done (hk : (schemas loxilb gateway).key p = none) (h : (schemas loxilb gateway).Done seen ws p) :
    (schemas loxilb gateway).Entered seen ws p := by
  cases h
  case seen hm hs       => cases hk.symm.trans hs
  case entered hw hc => exact fun s ho => ⟨hw s ho, hc s ho⟩

theorem Made.entered (h : Made loxilb gateway map seen ws) (hi : Inline loxilb gateway p) :
    (schemas loxilb gateway).Entered seen ws p := by
  induction hi
  case root hm hk            => exact entered_of_done hk <| h.walked.done _ hm
  case child ho hc hk hi => exact entered_of_done hk <| (hi _ ho).2 _ hc

theorem not_any_extraValues {ls gs : List JsValue} {v : JsValue} (hl : s.l.get "enum" = .array ls)
    (hg : s.g.get "enum" = .array gs) (hv : gs.any v.sameValueZero = true) :
    (!s.extraValues.any v.sameValueZero) = ls.any v.sameValueZero := by
  simp only [Shared.extraValues, hl, hg]
  cases ha : ls.any v.sameValueZero
  case false =>
    obtain ⟨w, hw, hvw⟩ := List.any_eq_true.mp hv
    obtain rfl := JsValue.eq_of_sameValueZero hvw
    rw [Bool.not_eq_false', List.any_eq_true]
    exact ⟨v, List.mem_filter.mpr ⟨hw, by rw [ha]; rfl⟩, hvw⟩
  case true  =>
    rw [Bool.not_eq_true', List.any_eq_false]
    intro w hw hvw
    obtain rfl := JsValue.eq_of_sameValueZero hvw
    rw [List.mem_filter, ha] at hw
    cases hw.2

theorem mem_extraProps {field : String} : field ∈ s.extraProps ↔
    field ∈ (s.g.get "properties").keys ∧ (s.l.get "properties").declares field = false := by
  rw [Shared.extraProps, JsString.sort_perm.mem_iff, List.mem_filter, Bool.not_eq_true']

end Inline

section Paths

theorem mem_methods_getD {k path : String} (hm : path ≠ "__proto__") :
    k ∈ ((gatewayOnlyMethods loxilb gateway).get? path).getD [] ↔
      path ∈ (gateway.get "paths").keys ∧ (loxilb.get "paths").declaresIn path = true ∧
      k ∈ ((gateway.get "paths").get path).keys ∧ k ≠ "parameters" ∧
      ((loxilb.get "paths").get path).declares k = false := by
  let extra (p : String) : List String := JsString.sort <| ((gateway.get "paths").get p).keys.filter fun m =>
    m ≠ "parameters" && !((loxilb.get "paths").get p).declares m
  let paths := (gateway.get "paths").keys.filter (loxilb.get "paths").declaresIn
  have hg : gatewayOnlyMethods loxilb gateway = notes id extra paths .empty := rfl
  by_cases hp : path ∈ paths
  · have hx : ((notes id extra paths .empty).get? path).getD [] = extra path :=
      getD_notes (fun p _ he => congrArg extra he) hm <| .inl ⟨⟨path, hp, rfl⟩, rfl⟩
    have hq := List.mem_filter.mp hp
    rw [hg, hx, JsString.sort_perm.mem_iff, List.mem_filter]
    simp [hq.1, hq.2]
  · have hn : (notes id extra paths .empty).get? path = none := by
      by_contra hne
      obtain ⟨e, he⟩ := Option.ne_none_iff_exists'.mp hne
      rcases notes_sound he with he | ⟨p, hp', rfl, -⟩
      · cases he
      · exact hp hp'
    rw [hg, hn, Option.getD_none]
    simp only [List.not_mem_nil, false_iff]
    exact fun h => hp <| List.mem_filter.mpr ⟨h.1, h.2.1⟩

theorem mem_gatewayOnly {table k : String} : k ∈ gatewayOnly loxilb gateway table ↔
    k ∈ (gateway.get table).keys ∧ (loxilb.get table).declaresIn k = false := by
  rw [gatewayOnly, JsString.sort_perm.mem_iff, List.mem_filter, Bool.not_eq_true']

end Paths

section Gates

-- A gate reads a table under a name that no object inherits.
theorem listAt_plain {β : Type} {table : Dict (List β)} {key : String} (h : key ∉ PlainObject.members) :
    listAt table key = some ((table.get? key).getD []) := by
  rw [listAt]
  cases hg : table.get? key
  case none      => rw [PlainObject.read_of_get?_none hg, if_neg h, Option.getD_none]
  case some list => rw [PlainObject.read_eq_own_iff.mpr hg, Option.getD_some]

theorem hasMethod_plain {method path : String} (h : path ∉ PlainObject.members) : hasMethod map .loxilb method path =
    some (decide (JsString.toLowerCase method ∉ (map.gatewayOnlyMethods.get? path).getD [])) := by
  rw [hasMethod, listAt_plain h]
  rfl

theorem hasField_plain {field : String} (h : ctx ∉ PlainObject.members) :
    hasField map .loxilb ctx field = some (decide (field ∉ (map.gatewayOnlyFields.get? ctx).getD [])) := by
  rw [hasField, listAt_plain h]
  rfl

theorem stripContext_plain {object : JsObject} (h : ctx ∉ PlainObject.members) : stripContext map .loxilb ctx object =
    some (stripGatewayOnlyFields .loxilb ((map.gatewayOnlyFields.get? ctx).getD []) object) := by
  unfold stripContext
  cases hg : map.gatewayOnlyFields.get? ctx
  case none        =>
    rw [PlainObject.read_of_get?_none hg, if_neg h]
    exact congrArg some (JsObject.delete_eq_self <| List.forall_mem_nil _).symm
  case some fields => rw [PlainObject.read_eq_own_iff.mpr hg, Option.getD_some]

theorem allowedEnumValues_plain {values : List JsValue} (h : ctx ∉ PlainObject.members) :
    allowedEnumValues map .loxilb ctx values =
      some (values.filter fun v => !((map.gatewayOnlyEnumValues.get? ctx).getD []).any v.sameValueZero) := by
  rw [allowedEnumValues, listAt_plain h]
  cases values
  case nil  => rfl
  case cons => rfl

end Gates

section Small

def leaf : JsValue :=
  .object [("type", .string "integer")]

def selNode (values : List String) : JsValue :=
  .object [("enum", .array <| values.map .string)]

def entryRef : JsValue :=
  .object [("$ref", .string "#/definitions/Entry")]

def entryNode (props : List (String × JsValue)) : JsValue :=
  .object [("properties", .object props)]

def specOf (paths : List (String × JsValue)) (entry : JsValue) : JsValue :=
  .object [("paths", .object paths), ("definitions", .object [("Entry", entry)])]

def smallEntry : JsValue :=
  entryNode [("port", leaf), ("sel", selNode ["rr", "hash"]), ("next", entryRef)]

def largeEntry : JsValue :=
  entryNode [("port", leaf), ("sel", selNode ["rr", "hash", "chwbl"]), ("next", entryRef), ("model", leaf)]

def smallSpec : JsValue :=
  specOf [("/config/lb", .object [("get", leaf)])] smallEntry

def largeSpec : JsValue :=
  specOf [("/config/lb", .object [("get", leaf), ("patch", leaf)]), ("/config/ai", .object [("get", leaf)])] largeEntry

theorem follow_small : smallSpec.follow "#/definitions/Entry" = smallEntry := by
  rfl

theorem follow_large : largeSpec.follow "#/definitions/Entry" = largeEntry := by
  rfl

theorem resolves_small {v : JsValue} : Resolves smallSpec entryRef v ↔ v = smallEntry := by
  have hr : entryRef.ref? = some "#/definitions/Entry" := by rfl
  have hn : smallEntry.ref? = none := by rfl
  rw [resolves_ref hr, follow_small, resolves_self hn]

theorem resolves_large {v : JsValue} : Resolves largeSpec entryRef v ↔ v = largeEntry := by
  have hr : entryRef.ref? = some "#/definitions/Entry" := by rfl
  have hn : largeEntry.ref? = none := by rfl
  rw [resolves_ref hr, follow_large, resolves_self hn]

-- The places of the two, without their contexts.
def smallNodes : List (JsValue × JsValue) :=
  [(smallEntry, largeEntry), (leaf, leaf), (selNode ["rr", "hash"], selNode ["rr", "hash", "chwbl"]), (entryRef, entryRef)]

theorem mem_smallNodes {a b : JsValue} : (a, b) ∈ smallNodes ↔
    (a, b) ∈ smallNodes.take 3 ∨ a = entryRef ∧ b = entryRef := by
  simp only [smallNodes, List.take, List.mem_cons, Prod.mk.injEq, List.not_mem_nil, or_false, or_assoc]

-- Of what stands behind the references only an entry has members.
theorem props_small {a b : JsValue} (hm : (a, b) ∈ smallNodes.take 3) :
    a.ref? = none ∧ b.ref? = none ∧ (a.get "items").truthy = false ∧
      (a = smallEntry ∧ b = largeEntry ∨ (a.get "properties").keys = []) := by
  simp only [smallNodes, List.take, List.mem_cons, Prod.mk.injEq, List.not_mem_nil, or_false] at hm
  rcases hm with ⟨rfl, rfl⟩ | ⟨rfl, rfl⟩ | ⟨rfl, rfl⟩
  · exact ⟨rfl, rfl, rfl, .inl ⟨rfl, rfl⟩⟩
  · exact ⟨rfl, rfl, rfl, .inr rfl⟩
  · exact ⟨rfl, rfl, rfl, .inr rfl⟩

theorem opens_small (hm : (p.lNode, p.gNode) ∈ smallNodes) (ho : (schemas smallSpec largeSpec).Opens p s) :
    (s.l, s.g) ∈ smallNodes.take 3 := by
  obtain ⟨hl, hg, -⟩ := opens_iff.mp ho
  rcases mem_smallNodes.mp hm with hm | ⟨h, h'⟩
  · obtain ⟨h, h', -⟩ := props_small hm
    rwa [(resolves_self h).mp hl, (resolves_self h').mp hg]
  · rw [h] at hl
    rw [h'] at hg
    rw [resolves_small.mp hl, resolves_large.mp hg]
    exact .head _

theorem at_small (h : At smallSpec largeSpec p) : (p.lNode, p.gNode) ∈ smallNodes := by
  induction h
  case root hm =>
    obtain ⟨d, hd, -, rfl⟩ := mem_sharedDefs.mp hm
    obtain rfl : d = "Entry" := List.mem_singleton.mp hd
    exact List.mem_cons_self
  case child ho hm hi =>
    obtain ⟨-, -, hi, hs⟩ := props_small <| opens_small hi ho
    rcases List.mem_append.mp hm with hm | hm
    · obtain ⟨name, hn, -, rfl⟩ := mem_props.mp hm
      rcases hs with ⟨h, h'⟩ | hk
      · rw [h] at hn
        have hn : name ∈ ["port", "sel", "next"] := hn
        simp only [List.mem_cons, List.not_mem_nil, or_false] at hn
        rw [h, h']
        rcases hn with rfl | rfl | rfl
        · exact .tail _ <| .head _
        · exact .tail _ <| .tail _ <| .head _
        · exact .tail _ <| .tail _ <| .tail _ <| .head _
      · rw [hk] at hn
        cases hn
    · obtain ⟨ht, -⟩ := mem_element.mp hm
      cases hi.symm.trans ht

theorem small_plainNames : PlainNames smallSpec largeSpec where
  defs d hd     := by
    obtain rfl : d = "Entry" := List.mem_singleton.mp hd
    decide
  props s hs name hn := by
    obtain ⟨p, hp, ho⟩ := hs
    obtain ⟨-, -, -, ⟨h, -⟩ | hk⟩ := props_small <| opens_small (at_small hp) ho
    · rw [h] at hn
      have hn : name ∈ ["port", "sel", "next"] := hn
      simp only [List.mem_cons, List.not_mem_nil, or_false] at hn
      rcases hn with rfl | rfl | rfl <;> decide
    · rw [hk] at hn
      cases hn

theorem small_uniformRefs : UniformRefs smallSpec largeSpec := by
  intro p hp
  rcases mem_smallNodes.mp <| at_small hp with hm | ⟨h, h'⟩
  · obtain ⟨h, h', -⟩ := props_small hm
    rw [h, h']
    exact ⟨Iff.rfl, fun r hr => by cases hr⟩
  · rw [h, h']
    refine ⟨Iff.rfl, fun r hr => ?_⟩
    obtain rfl : "#/definitions/Entry" = r := Option.some.inj hr
    decide

theorem chainsEnd_of_refs {doc v : JsValue} (hd : doc.refs = ["#/definitions/Entry"])
    (hf : doc.follow "#/definitions/Entry" = v) (hv : v.ref? = none) : ChainsEnd doc := by
  intro r hr
  rw [hd] at hr
  obtain rfl := List.mem_singleton.mp hr
  rw [hf]
  exact ⟨v, (resolves_self hv).mpr rfl⟩

theorem small_chains : ChainsEnd smallSpec ∧ ChainsEnd largeSpec :=
  ⟨chainsEnd_of_refs rfl follow_small rfl, chainsEnd_of_refs rfl follow_large rfl⟩

def entryPosition : Position :=
  ⟨"Entry", smallEntry, largeEntry⟩

def selPosition : Position :=
  ⟨"Entry.sel", selNode ["rr", "hash"], selNode ["rr", "hash", "chwbl"]⟩

theorem entry_opens : (schemas smallSpec largeSpec).Opens entryPosition ⟨"Entry", smallEntry, largeEntry⟩ :=
  opens_iff.mpr ⟨(resolves_self rfl).mpr rfl, (resolves_self rfl).mpr rfl, rfl, rfl, rfl⟩

theorem entry_inline : Inline smallSpec largeSpec entryPosition :=
  .root (mem_sharedDefs.mpr ⟨"Entry", .head _, rfl, rfl⟩) rfl

theorem sel_opens : (schemas smallSpec largeSpec).Opens selPosition
    ⟨"Entry.sel", selNode ["rr", "hash"], selNode ["rr", "hash", "chwbl"]⟩ :=
  opens_iff.mpr ⟨(resolves_self rfl).mpr rfl, (resolves_self rfl).mpr rfl, rfl, rfl, rfl⟩

theorem sel_inline : Inline smallSpec largeSpec selPosition := by
  refine .child entry_inline entry_opens (List.mem_append_left _ <| mem_props.mpr ⟨"sel", ?_, rfl, rfl⟩) rfl
  exact .tail _ <| .head _

-- The body of a rule with a member that only the gateway declares.
def smallBody : JsObject :=
  Dict.empty.set "port" (.number 80) |>.set "model" (.string "llama")

end Small

section Results

-- On two specifications whose chains of references end the script writes a map. A context in it is that of one place,
-- and what it says of the context is what the gateway declares there and loxilb does not.
theorem map_sound (hl : ChainsEnd loxilb) (hg : ChainsEnd gateway) (hp : PlainNames loxilb gateway) :
    ∃ N, ∀ n, N ≤ n → ∃ map, capabilityMap loxilb gateway n = some map ∧
      (∀ ctx fields, map.gatewayOnlyFields.get? ctx = some fields → ∃ s, SharedAt loxilb gateway s ∧ s.ctx = ctx ∧
        (∀ t, SharedAt loxilb gateway t → t.ctx = ctx → t = s) ∧ fields = s.extraProps ∧ fields ≠ []) ∧
      ∀ ctx values, map.gatewayOnlyEnumValues.get? ctx = some values → ∃ s, SharedAt loxilb gateway s ∧ s.ctx = ctx ∧
        (∀ t, SharedAt loxilb gateway t → t.ctx = ctx → t = s) ∧ values = s.extraValues ∧ values ≠ [] := by
  obtain ⟨N, hN⟩ := capabilityMap_returns hl hg
  refine ⟨N, fun n hn => ?_⟩
  obtain ⟨map, h⟩ := hN n hn
  obtain ⟨seen, ws, hm⟩ := made_of_capabilityMap h
  refine ⟨map, h, fun ctx fields hf => ?_, fun ctx values hf => ?_⟩
  · rw [hm.fields] at hf
    rcases notes_sound hf with hn | ⟨s, hs, rfl, rfl, hne⟩
    · cases hn
    · exact ⟨s, hm.sharedAt hs, rfl, fun t ht hc => sharedAt_inj hp ht (hm.sharedAt hs) hc, rfl, hne⟩
  · rw [hm.enumValues] at hf
    rcases notes_sound hf with hn | ⟨s, hs, rfl, rfl, hne⟩
    · cases hn
    · exact ⟨s, hm.sharedAt hs, rfl, fun t ht hc => sharedAt_inj hp ht (hm.sharedAt hs) hc, rfl, hne⟩

theorem map_sound_small :
    ∃ n map, capabilityMap smallSpec largeSpec n = some map ∧
      ∀ ctx fields, map.gatewayOnlyFields.get? ctx = some fields → ∃ s, SharedAt smallSpec largeSpec s ∧ s.ctx = ctx ∧
        (∀ t, SharedAt smallSpec largeSpec t → t.ctx = ctx → t = s) ∧ fields = s.extraProps ∧ fields ≠ [] := by
  obtain ⟨N, h⟩ := map_sound small_chains.1 small_chains.2 small_plainNames
  obtain ⟨map, hm, hf, -⟩ := h N <| Nat.le_refl N
  exact ⟨N, map, hm, hf⟩

-- What differs at any place is in the map: under the context of that place, or of another that refers to the same.
theorem map_covers (hl : ChainsEnd loxilb) (hg : ChainsEnd gateway) (hp : PlainNames loxilb gateway)
    (hu : UniformRefs loxilb gateway) :
    ∃ N, ∀ n, N ≤ n → ∃ map, capabilityMap loxilb gateway n = some map ∧ ∀ s, SharedAt loxilb gateway s →
      ∃ t, SharedAt loxilb gateway t ∧ t.l = s.l ∧ t.g = s.g ∧
        (map.gatewayOnlyFields.get? t.ctx).getD [] = s.extraProps ∧
        (map.gatewayOnlyEnumValues.get? t.ctx).getD [] = s.extraValues := by
  obtain ⟨N, hN⟩ := capabilityMap_returns hl hg
  refine ⟨N, fun n hn => ?_⟩
  obtain ⟨map, h⟩ := hN n hn
  obtain ⟨seen, ws, hm⟩ := made_of_capabilityMap h
  refine ⟨map, h, fun s hs => ?_⟩
  obtain ⟨p, hr, ho⟩ := hs
  obtain ⟨t, ht, hl, hg⟩ := hm.walked.covers (likeness hu) hr ho
  refine ⟨t, hm.sharedAt ht, hl, hg, ?_, ?_⟩
  · rw [hm.getD_fields hp ht, Shared.extraProps, Shared.extraProps, hl, hg]
  · rw [hm.getD_enumValues hp ht, Shared.extraValues, Shared.extraValues, hl, hg]

-- The two refer to their own entry over and over.
theorem map_covers_small :
    ∃ n map, capabilityMap smallSpec largeSpec n = some map ∧ ∀ s, SharedAt smallSpec largeSpec s →
      ∃ t, SharedAt smallSpec largeSpec t ∧ t.l = s.l ∧ t.g = s.g ∧
        (map.gatewayOnlyFields.get? t.ctx).getD [] = s.extraProps ∧
        (map.gatewayOnlyEnumValues.get? t.ctx).getD [] = s.extraValues := by
  obtain ⟨N, h⟩ := map_covers small_chains.1 small_chains.2 small_plainNames small_uniformRefs
  obtain ⟨map, hm⟩ := h N <| Nat.le_refl N
  exact ⟨N, map, hm⟩

-- At a place that no reference leads to the gates agree with the two specifications: what a body may have on the
-- gateway it has on loxilb, less the members that loxilb does not declare there.
theorem gates_inline (hp : PlainNames loxilb gateway) (h : capabilityMap loxilb gateway n = some map)
    (hi : Inline loxilb gateway p) (ho : (schemas loxilb gateway).Opens p s) (hc : p.ctx ∉ PlainObject.members) :
    (∀ field ∈ (s.g.get "properties").keys,
      hasField map .loxilb p.ctx field = some ((s.l.get "properties").declares field)) ∧
    (∀ object : JsObject, (∀ k ∈ object.keys, k ∈ (s.g.get "properties").keys) →
      ∃ stripped, stripContext map .loxilb p.ctx object = some stripped ∧ ∀ k, stripped.get? k =
        if (s.l.get "properties").declares k then object.get? k else none) ∧
    ∀ ls gs, s.l.get "enum" = .array ls → s.g.get "enum" = .array gs →
      ∀ values : List JsValue, (∀ v ∈ values, gs.any v.sameValueZero = true) →
        allowedEnumValues map .loxilb p.ctx values = some (values.filter fun v => ls.any v.sameValueZero) := by
  obtain ⟨seen, ws, hm⟩ := made_of_capabilityMap h
  have hs : s ∈ ws := (hm.entered hi s ho).1
  have hf := hm.getD_fields hp hs
  have he := hm.getD_enumValues hp hs
  rw [(opens_iff.mp ho).2.2.2.2] at hf he
  refine ⟨fun field hg => ?_, fun object hk => ⟨_, stripContext_plain hc, fun k => ?_⟩, fun ls gs hl hg values hv => ?_⟩
  · rw [hasField_plain hc, hf, Option.some.injEq, Bool.eq_iff_iff, decide_eq_true_iff, mem_extraProps, not_and,
      Bool.not_eq_false]
    exact ⟨fun h => h hg, fun h _ => h⟩
  · rw [hf, stripGatewayOnlyFields, JsObject.get?_delete]
    simp only [mem_extraProps]
    by_cases hd : (s.l.get "properties").declares k = true
    · rw [if_neg fun h => Bool.false_ne_true <| h.2.symm.trans hd, if_pos hd]
    · rw [if_neg hd]
      split
      case isTrue     => rfl
      case isFalse hn =>
        by_contra hne
        obtain ⟨v, hv⟩ := Option.ne_none_iff_exists'.mp hne
        exact hn ⟨hk k <| Dict.mem_keys_iff.mpr ⟨v, hv⟩, by simpa using hd⟩
  · rw [allowedEnumValues_plain hc, he, Option.some.injEq]
    exact List.filter_congr fun v hm => not_any_extraValues hl hg <| hv v hm

theorem gates_inline_small : ∃ n map, capabilityMap smallSpec largeSpec n = some map ∧
    hasField map .loxilb "Entry" "model" = some false ∧ hasField map .loxilb "Entry" "port" = some true ∧
    (∃ stripped, stripContext map .loxilb "Entry" smallBody = some stripped ∧
      stripped.get? "model" = none ∧ stripped.get? "port" = some (.number 80)) ∧
    allowedEnumValues map .loxilb "Entry.sel" [.string "chwbl", .string "hash"] = some [.string "hash"] := by
  obtain ⟨N, hN⟩ := capabilityMap_returns small_chains.1 small_chains.2
  obtain ⟨map, hm⟩ := hN N <| Nat.le_refl N
  obtain ⟨hf, hs, -⟩ := gates_inline small_plainNames hm entry_inline entry_opens <| by decide
  obtain ⟨-, -, he⟩ := gates_inline small_plainNames hm sel_inline sel_opens <| by decide
  obtain ⟨stripped, hb, hk⟩ := hs smallBody <| List.forall_mem_cons.mpr
    ⟨.head _, List.forall_mem_singleton.mpr <| .tail _ <| .tail _ <| .tail _ <| .head _⟩
  refine ⟨N, map, hm, (hf "model" ?_).trans rfl, (hf "port" ?_).trans rfl, ⟨stripped, hb, ?_, ?_⟩, ?_⟩
  · exact .tail _ <| .tail _ <| .tail _ <| .head _
  · exact .head _
  · exact (hk "model").trans rfl
  · exact (hk "port").trans rfl
  · exact (he _ _ rfl rfl _ <| List.all_eq_true.mp rfl).trans rfl

-- On loxilb a method is held back from a path that both have, and a feature if a path of it is the gateway's alone.
theorem gates_paths (h : capabilityMap loxilb gateway n = some map) :
    (∀ method path, path ∉ PlainObject.members → (hasMethod map .loxilb method path = some false ↔
      path ∈ (gateway.get "paths").keys ∧ (loxilb.get "paths").declaresIn path = true ∧
      JsString.toLowerCase method ∈ ((gateway.get "paths").get path).keys ∧
      JsString.toLowerCase method ≠ "parameters" ∧
      ((loxilb.get "paths").get path).declares (JsString.toLowerCase method) = false)) ∧
    ∀ feature, hasFeature map .loxilb feature = false ↔ ∃ first ∈ featurePaths feature,
      ∃ path ∈ (gateway.get "paths").keys, (loxilb.get "paths").declaresIn path = false ∧
        (path = first ∨ JsString.startsWith path (first ++ "/") = true) := by
  obtain ⟨found, -, hm⟩ := Option.bind_eq_some_iff.mp h
  obtain rfl := Option.some.inj hm
  constructor
  · intro method path hp
    have hm : path ≠ "__proto__" := fun h => hp <| by
      rw [h]
      decide
    rw [hasMethod_plain hp, Option.some.injEq, decide_eq_false_iff_not, not_not, mem_methods_getD hm]
  · intro feature
    simp only [hasFeature, Bool.not_eq_false', List.any_eq_true, mem_gatewayOnly, Bool.or_eq_true, decide_eq_true_iff]
    constructor
    · rintro ⟨first, hf, path, ⟨hp, hd⟩, hs⟩
      exact ⟨first, hf, path, hp, hd, hs⟩
    · rintro ⟨first, hf, path, hp, hd, hs⟩
      exact ⟨first, hf, path, ⟨hp, hd⟩, hs⟩

theorem gates_paths_small : ∃ n map, capabilityMap smallSpec largeSpec n = some map ∧
    hasMethod map .loxilb "PATCH" "/config/lb" = some false ∧ hasFeature map .loxilb .ai = false := by
  obtain ⟨N, hN⟩ := capabilityMap_returns small_chains.1 small_chains.2
  obtain ⟨map, hm⟩ := hN N <| Nat.le_refl N
  obtain ⟨hmethod, hfeature⟩ := gates_paths hm
  refine ⟨N, map, hm, ?_, ?_⟩
  · exact (hmethod "PATCH" "/config/lb" <| by decide).mpr ⟨.head _, rfl, by decide, by decide, rfl⟩
  · exact (hfeature .ai).mpr ⟨_, .head _, "/config/ai", .tail _ <| .head _, rfl, .inl rfl⟩

end Results

end Capabilities
