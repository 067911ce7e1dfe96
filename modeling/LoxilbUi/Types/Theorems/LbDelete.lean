import LoxilbUi.Types.LbIdentity

-- The address that deletes a rule names what it is keyed by, and nothing else.

namespace LBIdentity

open LoadBalancer JsUrl

variable {a b args : JsObject} {v : JsValue} {s t : String}

-- `value ?? ''`, of a text.
def orBlank (v : JsValue) : String :=
  (v.orElse (.string "")).toText

def IsText (v : JsValue) : Prop :=
  v.isNil ∨ ∃ s, v = .string s

structure WellFormed (args : JsObject) : Prop where
  externalIP      : ∃ s, args.get "externalIP" = .string s
  port            : ∃ n, args.get "port" = .number n
  portMax         : args.get "portMax" = .undefined ∨ ∃ n, args.get "portMax" = .number n
  protocol        : ∃ s, args.get "protocol" = .string s
  host            : IsText (args.get "host")
  path_prefix     : IsText (args.get "path_prefix")
  path_match_mode : IsText (args.get "path_match_mode")
  model_name      : IsText (args.get "model_name")

-- The end of a range that reaches past its port.
def effectivePortMax (args : JsObject) : Option JsNumber :=
  match args.get "portMax", args.get "port" with
  | .number portMax, .number port => if port.lt portMax then some portMax else none
  | _, _                          => none

-- What two rules have in common that one address deletes. Paths count only below a host.
structure SameTarget (a b : JsObject) : Prop where
  externalIP      : a.get "externalIP" = b.get "externalIP"
  port            : a.get "port" = b.get "port"
  portMax         : effectivePortMax a = effectivePortMax b
  protocol        : a.get "protocol" = b.get "protocol"
  host            : orBlank (a.get "host") = orBlank (b.get "host")
  model_name      : orBlank (a.get "model_name") = orBlank (b.get "model_name")
  path_prefix     : orBlank (a.get "host") ≠ "" →
    orBlank (a.get "path_prefix") = orBlank (b.get "path_prefix")
  path_match_mode : orBlank (a.get "host") ≠ "" →
    orBlank (a.get "path_match_mode") = orBlank (b.get "path_match_mode")

section Optional

variable {α β : Type*} {g : α → List β} {o o' : Option α} {l l' : List β}

-- Where a part that may be missing cannot be taken for what follows it, it can be read off.
theorem elim_append_inj (hg : ∀ a b, g a ++ l = g b ++ l' → a = b ∧ l = l') (h : ∀ a, g a ++ l ≠ l')
    (h' : ∀ a, l ≠ g a ++ l') : o.elim [] g ++ l = o'.elim [] g ++ l' ↔ o = o' ∧ l = l' := by
  constructor
  case mpr =>
    rintro ⟨rfl, rfl⟩
    rfl
  case mp =>
    intro he
    cases o <;> cases o'
    case none.none     => exact ⟨rfl, he⟩
    case none.some b   => exact absurd he <| h' b
    case some.none a   => exact absurd he <| h a
    case some.some a b => exact (hg a b he).imp_left <| congrArg some

def given (s : String) : Option String :=
  if s = "" then none else some s

theorem given_inj : given s = given t ↔ s = t := by
  simp only [given]
  split <;> split <;> simp_all [eq_comm]

end Optional

section Key

theorem truthy_iff (h : IsText v) : v.truthy = true ↔ orBlank v ≠ "" := by
  obtain h | ⟨s, rfl⟩ := h
  · cases v <;> simp_all [JsValue.isNil, JsValue.truthy, orBlank, JsValue.orElse, JsValue.toText]
  · simp [JsValue.truthy, orBlank, JsValue.orElse, JsValue.isNil, JsValue.toText]

theorem unlessEmpty_eq (h : IsText v) :
    unlessEmpty v = (given <| orBlank v).elim .undefined .string := by
  rw [unlessEmpty, given]
  by_cases hv : orBlank v = ""
  · rw [if_pos hv, if_neg <| by simpa [truthy_iff h] using hv]
    rfl
  · obtain h | ⟨s, rfl⟩ := h
    · cases v <;> contradiction
    · rw [if_neg hv, if_pos <| (truthy_iff <| .inr ⟨s, rfl⟩).mpr hv]
      rfl

theorem portMaxAbove_eq (hp : ∃ n, args.get "port" = .number n)
    (hm : args.get "portMax" = .undefined ∨ ∃ n, args.get "portMax" = .number n) :
    portMaxAbove args = (effectivePortMax args).elim .undefined .number := by
  obtain ⟨p, hp⟩ := hp
  obtain hm | ⟨m, hm⟩ := hm
  · simp [portMaxAbove, effectivePortMax, hm, JsValue.strictEq]
  · simp only [portMaxAbove, effectivePortMax, hm, hp, numeric, JsValue.strictEq]
    cases p.lt m <;> rfl

end Key

section Path

def hostParts (host : String) : List Part :=
  ["hosturl".toList, (encodeURIComponent host).toList]

def rangeParts (portMax : JsNumber) : List Part :=
  ["portmax".toList, (encodeURIComponent portMax.toText).toList]

-- The path of an address, part by part.
def partsOf (args : JsObject) : List Part :=
  "config".toList :: "loadbalancer".toList :: ((given <| orBlank <| args.get "host").elim [] hostParts ++
    "externalipaddress".toList :: (segment <| args.get "externalIP").toList ::
      "port".toList :: (segment <| args.get "port").toList ::
        ((effectivePortMax args).elim [] rangeParts ++
          ["protocol".toList, (segment <| args.get "protocol").toList]))

def paramsOf (args : JsObject) : List (String × String) :=
  let qualifiers := (given <| orBlank <| args.get "path_prefix").elim [] (fun v => [("path_prefix", v)]) ++
    (given <| orBlank <| args.get "path_match_mode").elim [] fun v => [("path_match_mode", v)]
  (if orBlank (args.get "host") = "" then [] else qualifiers) ++
    (given <| orBlank <| args.get "model_name").elim [] fun v => [("model_name", v)]

theorem hostParts_append_inj {l l' : List Part} {o o' : Option String} :
    o.elim [] hostParts ++ "externalipaddress".toList :: l =
        o'.elim [] hostParts ++ "externalipaddress".toList :: l' ↔ o = o' ∧ l = l' := by
  rw [elim_append_inj, List.cons_inj_right]
  case hg =>
    intro s t h
    simp only [hostParts, List.cons_append, List.nil_append, List.cons.injEq, true_and] at h
    exact ⟨encodeURIComponent_injective <| String.toList_inj.mp h.1, by rw [h.2]⟩
  case h => simp [hostParts]
  case h' => simp [hostParts]

theorem rangeParts_append_inj {p p' : Part} {o o' : Option JsNumber} :
    o.elim [] rangeParts ++ ["protocol".toList, p] = o'.elim [] rangeParts ++ ["protocol".toList, p'] ↔
      o = o' ∧ p = p' := by
  rw [elim_append_inj]
  case hg =>
    intro m n h
    simp only [rangeParts, List.cons_append, List.nil_append, List.cons.injEq, true_and] at h
    exact ⟨JsNumber.toText_injective <| encodeURIComponent_injective <| String.toList_inj.mp h.1, by simp [h.2]⟩
  case h => simp [rangeParts]
  case h' => simp [rangeParts]
  simp

theorem param_append_inj {name : String} {l l' : List (String × String)} {o o' : Option String}
    (h : ∀ p ∈ l, p.1 ≠ name) (h' : ∀ p ∈ l', p.1 ≠ name) :
    (o.elim [] fun v => [(name, v)]) ++ l = (o'.elim [] fun v => [(name, v)]) ++ l' ↔ o = o' ∧ l = l' := by
  refine elim_append_inj (fun s t he => ?_) (fun s he => ?_) fun s he => ?_
  · simpa using he
  · exact h' (name, s) (he ▸ List.mem_cons_self) rfl
  · exact h (name, s) (he ▸ List.mem_cons_self) rfl

theorem segment_inj {v w : JsValue} (h : v.toText = w.toText → v = w) :
    (segment v).toList = (segment w).toList ↔ v = w :=
  ⟨fun he => h <| encodeURIComponent_injective <| String.toList_inj.mp he, fun he => by rw [he]⟩

theorem partsOf_eq_iff (ha : WellFormed a) (hb : WellFormed b) : partsOf a = partsOf b ↔
    orBlank (a.get "host") = orBlank (b.get "host") ∧ a.get "externalIP" = b.get "externalIP" ∧
      a.get "port" = b.get "port" ∧ effectivePortMax a = effectivePortMax b ∧
        a.get "protocol" = b.get "protocol" := by
  have he : (a.get "externalIP").toText = (b.get "externalIP").toText → a.get "externalIP" = b.get "externalIP" := by
    obtain ⟨s, hs⟩ := ha.externalIP
    obtain ⟨t, ht⟩ := hb.externalIP
    simp [hs, ht, JsValue.toText]
  have hp : (a.get "port").toText = (b.get "port").toText → a.get "port" = b.get "port" := by
    obtain ⟨m, hm⟩ := ha.port
    obtain ⟨n, hn⟩ := hb.port
    rw [hm, hn]
    exact fun h => congrArg _ <| JsNumber.toText_injective h
  have hr : (a.get "protocol").toText = (b.get "protocol").toText → a.get "protocol" = b.get "protocol" := by
    obtain ⟨s, hs⟩ := ha.protocol
    obtain ⟨t, ht⟩ := hb.protocol
    simp [hs, ht, JsValue.toText]
  simp only [partsOf, List.cons_inj_right, hostParts_append_inj, given_inj, List.cons.injEq,
    segment_inj he, segment_inj hp, rangeParts_append_inj, segment_inj hr]

theorem paramsOf_eq_iff (h : orBlank (a.get "host") = orBlank (b.get "host")) : paramsOf a = paramsOf b ↔
    orBlank (a.get "model_name") = orBlank (b.get "model_name") ∧ (orBlank (a.get "host") ≠ "" →
      orBlank (a.get "path_prefix") = orBlank (b.get "path_prefix") ∧
        orBlank (a.get "path_match_mode") = orBlank (b.get "path_match_mode")) := by
  have hm (o o' : Option String) :
      (o.elim [] fun v => [("model_name", v)]) = (o'.elim [] fun v => [("model_name", v)]) ↔ o = o' := by
    simpa using @param_append_inj "model_name" [] [] o o' (by simp) (by simp)
  have hn (o : Option String) (p : String × String) (hp : p ∈ (o.elim [] fun v => [("model_name", v)])) :
      p.1 = "model_name" := by
    cases o <;> simp_all
  have hq (o : Option String) (p : String × String) (hp : p ∈ (o.elim [] fun v => [("path_match_mode", v)])) :
      p.1 = "path_match_mode" := by
    cases o <;> simp_all
  simp only [paramsOf, ← h]
  split
  case isTrue hh => simp [hm, given_inj, hh]
  case isFalse hh =>
    rw [List.append_assoc, List.append_assoc, param_append_inj, param_append_inj, hm]
    · simp only [given_inj]
      tauto
    all_goals grind

theorem partsOf_plain : ∀ p ∈ partsOf args, '/' ∉ p ∧ '?' ∉ p := by
  have hs (s : String) : '/' ∉ (encodeURIComponent s).toList ∧ '?' ∉ (encodeURIComponent s).toList :=
    ⟨reserved_not_encoded rfl, reserved_not_encoded rfl⟩
  have hh (o : Option String) : ∀ p ∈ o.elim [] hostParts, '/' ∉ p ∧ '?' ∉ p := by
    cases o <;> simp [hostParts, hs]
  have hr (o : Option JsNumber) : ∀ p ∈ o.elim [] rangeParts, '/' ∉ p ∧ '?' ∉ p := by
    cases o <;> simp [rangeParts, hs]
  intro p hp
  simp only [partsOf, List.mem_cons, List.mem_append, List.not_mem_nil, or_false, segment] at hp
  obtain rfl | rfl | h | rfl | rfl | rfl | rfl | h | rfl | rfl := hp
  case inr.inr.inl => exact hh _ p h
  case inr.inr.inr.inr.inr.inr.inr.inl => exact hr _ p h
  all_goals simp [hs]

theorem joinPath_inj {ps qs : List Part} (hp : ∀ p ∈ ps, '/' ∉ p) (hq : ∀ q ∈ qs, '/' ∉ q) :
    joinPath ps = joinPath qs ↔ ps = qs := by
  constructor
  case mpr =>
    rintro rfl
    rfl
  case mp =>
    intro h
    have h := congrArg (List.splitOn '/') h
    rw [splitOn_joinPath hp, splitOn_joinPath hq] at h
    exact (List.cons.inj h).2

theorem question_not_mem_path : '?' ∉ (String.ofList <| joinPath <| partsOf args).toList := by
  rw [String.toList_ofList]
  intro h
  obtain h | ⟨p, hp, h⟩ := mem_joinPath h
  · exact absurd h (by decide)
  · exact (partsOf_plain p hp).2 h

end Path

section Address

def hostPrefixOf (args : JsObject) : String :=
  (given <| orBlank <| args.get "host").elim "" fun host => "/hosturl/" ++ encodeURIComponent host

def rangeOf (args : JsObject) : String :=
  (effectivePortMax args).elim "" fun portMax => "/portmax/" ++ encodeURIComponent portMax.toText

theorem path_eq : "/config/loadbalancer" ++ hostPrefixOf args ++ "/externalipaddress/" ++
    segment (args.get "externalIP") ++ "/port/" ++ segment (args.get "port") ++ rangeOf args ++
      "/protocol/" ++ segment (args.get "protocol") = .ofList (joinPath <| partsOf args) := by
  rw [← String.toList_inj, partsOf, hostPrefixOf, rangeOf]
  cases given (orBlank (args.get "host")) <;> cases effectivePortMax args <;> simp [hostParts, rangeParts]

theorem setIfAny_entries {query : Dict String} {name : String} (h : IsText v) (hn : name ∉ query.keys) :
    (setIfAny query name (unlessEmpty v)).entries =
      query.entries ++ (given <| orBlank v).elim [] fun v => [(name, v)] := by
  rw [unlessEmpty_eq h, given]
  split
  case isTrue => simp [setIfAny, JsValue.truthy]
  case isFalse hv => simp [setIfAny, JsValue.truthy, hv, JsValue.toText, Dict.set, Dict.put_of_not_mem hn]

theorem unlessEmpty_truthy (h : IsText v) : (unlessEmpty v).truthy = true ↔ orBlank v ≠ "" := by
  rw [unlessEmpty_eq h, given]
  split <;> simp_all [JsValue.truthy]

theorem hostPrefix_eq (h : IsText <| args.get "host") :
    (if (unlessEmpty <| args.get "host").truthy then "/hosturl/" ++ segment (unlessEmpty <| args.get "host")
      else "") = hostPrefixOf args := by
  rw [hostPrefixOf, unlessEmpty_eq h, given]
  split <;> simp_all [JsValue.truthy, segment, JsValue.toText]

theorem range_eq (h : WellFormed args) :
    (if (portMaxAbove args).strictEq .undefined then "" else "/portmax/" ++ segment (portMaxAbove args)) =
      rangeOf args := by
  rw [rangeOf, portMaxAbove_eq h.port h.portMax]
  cases effectivePortMax args <;> rfl

theorem query_eq (h : WellFormed args) :
    (setIfAny (if (unlessEmpty <| args.get "host").truthy then
        setIfAny (setIfAny .empty "path_prefix" <| unlessEmpty <| args.get "path_prefix")
          "path_match_mode" <| unlessEmpty <| args.get "path_match_mode"
      else .empty) "model_name" <| unlessEmpty <| args.get "model_name").entries = paramsOf args := by
  have hk (d : Dict String) (l : List (String × String)) (hd : d.entries = l) : d.keys = l.map Prod.fst := by
    rw [Dict.keys, hd]
  have hp := @setIfAny_entries (args.get "path_prefix") .empty "path_prefix" h.path_prefix List.not_mem_nil
  have hn : "path_match_mode" ∉ (setIfAny .empty "path_prefix" <| unlessEmpty <| args.get "path_prefix").keys := by
    rw [hk _ _ hp]
    cases given _ <;> simp [Dict.empty]
  have hm := setIfAny_entries h.path_match_mode hn
  rw [paramsOf]
  by_cases hh : orBlank (args.get "host") = ""
  · have ht : (unlessEmpty <| args.get "host").truthy = false :=
      Bool.eq_false_iff.mpr fun ht => (unlessEmpty_truthy h.host).mp ht hh
    rw [ht, if_neg Bool.false_ne_true, if_pos hh, setIfAny_entries h.model_name List.not_mem_nil]
    rfl
  · rw [(unlessEmpty_truthy h.host).mpr hh, if_pos rfl, if_neg hh, setIfAny_entries h.model_name, hm, hp]
    · rfl
    · rw [hk _ _ <| hm.trans <| by rw [hp]]
      cases given (orBlank <| args.get "path_prefix") <;>
        cases given (orBlank <| args.get "path_match_mode") <;> simp [Dict.empty]

theorem buildLBDeletePath_eq {configuration : ServiceConfiguration}
    (h : WellFormed configuration.serviceArguments) :
    buildLBDeletePath (buildLBDeleteKey configuration) =
      let suffix := searchText <| paramsOf configuration.serviceArguments
      let path := .ofList <| joinPath <| partsOf configuration.serviceArguments
      if suffix = "" then path else path ++ "?" ++ suffix := by
  rw [← path_eq, ← hostPrefix_eq h.host, ← range_eq h, ← query_eq h]
  rfl

-- Two rules have one delete address just if they agree on what they are keyed by.
theorem buildLBDeletePath_eq_iff {a b : ServiceConfiguration} (ha : WellFormed a.serviceArguments)
    (hb : WellFormed b.serviceArguments) :
    buildLBDeletePath (buildLBDeleteKey a) = buildLBDeletePath (buildLBDeleteKey b) ↔
      SameTarget a.serviceArguments b.serviceArguments := by
  rw [buildLBDeletePath_eq ha, buildLBDeletePath_eq hb,
    append_searchText_inj question_not_mem_path question_not_mem_path, String.ofList_inj,
    joinPath_inj (fun p hp => (partsOf_plain p hp).1) (fun p hp => (partsOf_plain p hp).1),
    partsOf_eq_iff ha hb]
  constructor
  case mp =>
    rintro ⟨⟨hh, he, hp, hm, hr⟩, hq⟩
    obtain ⟨hn, hq⟩ := (paramsOf_eq_iff hh).mp hq
    exact ⟨he, hp, hm, hr, hh, hn, fun h => (hq h).1, fun h => (hq h).2⟩
  case mpr =>
    intro h
    exact ⟨⟨h.host, h.externalIP, h.port, h.portMax, h.protocol⟩,
      (paramsOf_eq_iff h.host).mpr ⟨h.model_name, fun hh => ⟨h.path_prefix hh, h.path_match_mode hh⟩⟩⟩

-- A host in which the separators of an address stand, and a path that only a host would let count.
def separatorsRule (host path : JsValue) : ServiceConfiguration where
  serviceArguments := .ofList [("externalIP", .string "2001:db8::1"), ("port", .number 80),
    ("portMax", .number 80), ("protocol", .string "tcp"), ("host", host), ("path_prefix", path)]
  endpoints        := none
  secondaryIPs     := none
  allowedSources   := none

theorem wellFormed_separatorsRule {host path : JsValue} (hh : IsText host) (hp : IsText path) :
    WellFormed (separatorsRule host path).serviceArguments where
  externalIP      := ⟨_, rfl⟩
  port            := ⟨_, rfl⟩
  portMax         := .inr ⟨_, rfl⟩
  protocol        := ⟨_, rfl⟩
  host            := hh
  path_prefix     := hp
  path_match_mode := .inl rfl
  model_name      := .inl rfl

theorem buildLBDeletePath_separators :
    buildLBDeletePath (buildLBDeleteKey <| separatorsRule (.string "a/b?c&d=é%") (.string "/x y")) =
        buildLBDeletePath (buildLBDeleteKey <| separatorsRule (.string "a/b?c&d=é%") (.string "/x+y")) ↔
      SameTarget (separatorsRule (.string "a/b?c&d=é%") (.string "/x y")).serviceArguments
        (separatorsRule (.string "a/b?c&d=é%") (.string "/x+y")).serviceArguments :=
  buildLBDeletePath_eq_iff (wellFormed_separatorsRule (.inr ⟨_, rfl⟩) (.inr ⟨_, rfl⟩))
    (wellFormed_separatorsRule (.inr ⟨_, rfl⟩) (.inr ⟨_, rfl⟩))

end Address

end LBIdentity
