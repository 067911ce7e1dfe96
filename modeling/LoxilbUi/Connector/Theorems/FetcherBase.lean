import LoxilbUi.Connector.FetcherBase

namespace FetcherBase

section TestLogin

variable {c : Char} {s t word : List Char} {parts : List JsUrl.Part}

-- What a text goes on with ends any word before it.
def Ends (t : List Char) : Prop :=
  atBoundary t = true ∧ ∀ c ∈ t.head?, c ∉ "login".toList

theorem ends_nil : Ends [] :=
  ⟨rfl, by simp⟩

theorem ends_slash : Ends ('/' :: t) :=
  ⟨rfl, by simp⟩

theorem ends_question : Ends ('?' :: t) :=
  ⟨rfl, by simp⟩

theorem atBoundary_append (h : atBoundary t = true) : atBoundary (s ++ t) = atBoundary s := by
  cases s
  case nil  => simpa [atBoundary] using h
  case cons => rfl

theorem startsWithWord_append (h : Ends t) (hw : ∀ c ∈ word, c ∈ "login".toList) :
    startsWithWord word (s ++ t) = startsWithWord word s := by
  induction word generalizing s
  case nil => exact atBoundary_append h.left
  case cons w ws hi =>
    cases s
    case cons c s =>
      simp only [List.cons_append, startsWithWord, hi fun c hc => hw c <| List.mem_cons_of_mem _ hc]
    case nil =>
      cases t
      case nil => rfl
      case cons c t =>
        have hc : w ≠ c := by
          rintro rfl
          exact h.right w rfl <| hw w <| by simp
        simp [startsWithWord, hc]

theorem isLoginWord_append (h : Ends t) : isLoginWord (s ++ t) = isLoginWord s :=
  startsWithWord_append h fun _ => id

theorem testLogin_append (h : Ends t) : testLogin (s ++ t) = (testLogin s || testLogin t) := by
  induction s
  case nil          => rfl
  case cons c s hi  => simp [testLogin, isLoginWord_append h, hi, Bool.or_assoc]

theorem testLogin_eq_false (h : '/' ∉ s) : testLogin s = false := by
  induction s
  case nil => rfl
  case cons c s hi =>
    obtain ⟨hc, hs⟩ := not_or.mp <| mt List.mem_cons.mpr h
    simp [testLogin, hi hs, Ne.symm hc]

theorem ends_joinPath (h : Ends t) : Ends (JsUrl.joinPath parts ++ t) := by
  cases parts
  case nil  => exact h
  case cons => exact ends_slash

-- The pattern meets a path in the parts that begin with the word.
theorem testLogin_joinPath (h : Ends t) (hp : ∀ p ∈ parts, '/' ∉ p) :
    testLogin (JsUrl.joinPath parts ++ t) = (parts.any isLoginWord || testLogin t) := by
  induction parts
  case nil => simp
  case cons p ps hi =>
    obtain ⟨hs, hp⟩ := List.forall_mem_cons.mp hp
    have he := @ends_joinPath t ps h
    simp only [JsUrl.joinPath_cons, List.cons_append, testLogin, List.append_assoc]
    rw [isLoginWord_append he, testLogin_append he, testLogin_eq_false hs, hi hp]
    simp [Bool.or_assoc]

end TestLogin

section Parts

variable {c : Char} {url : RequestUrl} {header : Option String}

theorem isPartChar_ne (h : isPartChar c = true) : c ≠ '/' ∧ c ≠ '\\' ∧ c ≠ '?' ∧ c ≠ '#' := by
  simp only [isPartChar, Bool.and_eq_true, decide_eq_true_eq, List.mem_cons, List.not_mem_nil,
    or_false, not_or] at h
  exact h.right

theorem UrlPart.chars {part : UrlPart} (h : c ∈ part.val) :
    c ≠ '/' ∧ c ≠ '\\' ∧ c ≠ '?' ∧ c ≠ '#' :=
  isPartChar_ne <| List.all_eq_true.mp part.property c h

namespace RequestUrl

theorem parts_chars {part : JsUrl.Part} (h : part ∈ url.parts) (hc : c ∈ part) :
    c ≠ '/' ∧ c ≠ '\\' ∧ c ≠ '?' ∧ c ≠ '#' := by
  obtain ⟨part, -, rfl⟩ := List.mem_map.mp h
  exact UrlPart.chars hc

theorem parts_plain : ∀ part ∈ url.parts, '/' ∉ part :=
  fun _ h hc => (parts_chars h hc).left rfl

theorem ends_search : Ends url.search := by
  cases h : url.query <;> simp only [search, h]
  case none   => exact ends_nil
  case some q => exact ends_question

theorem testLogin_search :
    testLogin url.search = true ↔ ∃ query, url.query = some query ∧ testLogin query.toList = true := by
  cases h : url.query <;> simp [search, h, testLogin]

theorem testLogin_origin {t : List Char} (h : Ends t) : testLogin (url.origin ++ t) = true ↔
    (∃ secure authority, url.base.host = some (secure, authority) ∧ isLoginWord authority.val) ∨
      testLogin t = true := by
  cases hh : url.base.host
  case none => simp [origin, hh]
  case some host =>
    obtain ⟨secure, authority⟩ := host
    have ha : ∀ p ∈ ([[], authority.val] : List JsUrl.Part), '/' ∉ p := by
      simpa using fun hc => (UrlPart.chars hc).left rfl
    have hs : '/' ∉ (if secure then "https:" else "http:").toList := by cases secure <;> decide
    simp only [origin, hh, List.append_assoc]
    rw [testLogin_append (ends_joinPath h), testLogin_eq_false hs, testLogin_joinPath h ha]
    have he : isLoginWord [] = false := by decide
    simp only [List.any_cons, he, List.any_nil, Bool.false_or, Bool.or_false, Bool.or_eq_true]
    refine or_congr_left ⟨fun h => ⟨secure, authority, rfl, h⟩, ?_⟩
    rintro ⟨_, _, ⟨⟩, h⟩
    exact h

-- The pattern finds the login route in every part that begins with the word.
theorem testLogin_text : testLogin url.text.toList = true ↔ url.NamesLogin := by
  rw [text, String.toList_ofList, List.append_assoc, testLogin_origin (ends_joinPath ends_search),
    testLogin_joinPath ends_search parts_plain, Bool.or_eq_true, testLogin_search, List.any_eq_true]
  rfl

theorem origin_chars {c : Char} (h : c ∈ url.origin) : c ≠ '?' ∧ c ≠ '#' := by
  cases hh : url.base.host
  case none => simp [origin, hh] at h
  case some host =>
    obtain ⟨secure, authority⟩ := host
    simp only [origin, hh, List.mem_append] at h
    obtain h | h := h
    · have hs : (if secure then "https:" else "http:").toList.all (fun c => c ≠ '?' && c ≠ '#') =
          true := by cases secure <;> decide
      simpa using List.all_eq_true.mp hs c h
    · obtain rfl | ⟨p, hp, h⟩ := JsUrl.mem_joinPath h
      · decide
      · obtain rfl | rfl := by simpa using hp
        · simp at h
        · exact (UrlPart.chars h).right.right

theorem takeWhile_text : (url.text.toList.takeWhile fun c => c ≠ '?' && c ≠ '#') =
    url.origin ++ JsUrl.joinPath url.parts := by
  rw [text, String.toList_ofList, List.takeWhile_append_of_pos]
  · cases h : url.query <;> simp [search, h]
  · intro c hc
    simp only [Bool.and_eq_true, decide_eq_true_eq]
    obtain h | h := List.mem_append.mp hc
    · exact origin_chars h
    · obtain rfl | ⟨p, hp, h⟩ := JsUrl.mem_joinPath h
      · decide
      · exact (parts_chars hp h).right.right

theorem joinPath_dropWhile {parts : List JsUrl.Part} :
    (JsUrl.joinPath parts).dropWhile (· ≠ '/') = JsUrl.joinPath parts := by
  cases parts <;> simp

theorem afterOrigin_text :
    JsUrl.afterOrigin (url.origin ++ JsUrl.joinPath url.parts) = JsUrl.joinPath url.parts := by
  cases hh : url.base.host
  case none =>
    obtain ⟨part, parts, hb, hn⟩ := url.base.rooted hh
    obtain ⟨c, cs, hp⟩ := List.exists_cons_of_ne_nil hn
    have hc : c ≠ '/' := (@UrlPart.chars c part <| by simp [hp]).left
    have ha : '/'.isAlphanum = false := by decide
    simp [origin, hh, RequestUrl.parts, hb, hp, JsUrl.afterOrigin, ha, hc]
  case some host =>
    obtain ⟨secure, authority⟩ := host
    have ha : ∀ c ∈ authority.val, decide (c ≠ '/') = true := by
      simpa using fun c hc => (UrlPart.chars hc).left
    have hd : JsUrl.afterOrigin (url.origin ++ JsUrl.joinPath url.parts) =
        (authority.val ++ JsUrl.joinPath url.parts).dropWhile (· ≠ '/') := by
      have hs : ['h', 't', 'p', 's'].all Char.isAlphanum = true := by decide
      have hc : ':'.isAlphanum = false := by decide
      simp only [List.all_cons, Bool.and_eq_true] at hs
      cases secure <;> simp [origin, hh, JsUrl.afterOrigin, hs, hc]
    rw [hd, List.dropWhile_append_of_pos ha, joinPath_dropWhile]

-- `new URL` finds the path that was put together, with its dots resolved.
theorem pathname_text :
    JsUrl.pathname url.text = .ofList (JsUrl.joinPath <| JsUrl.resolveDots [] url.parts) := by
  have hm : (JsUrl.joinPath url.parts).map (fun c => if c = '\\' then '/' else c) =
      JsUrl.joinPath url.parts := by
    refine (List.map_congr_left fun c hc => ?_).trans <| List.map_id _
    refine if_neg ?_
    obtain rfl | ⟨p, hp, h⟩ := JsUrl.mem_joinPath hc
    · decide
    · exact (parts_chars hp h).right.left
  simp only [JsUrl.pathname, takeWhile_text, afterOrigin_text, hm, JsUrl.splitOn_joinPath parts_plain,
    List.tail_cons]

theorem endsWith_probePath_iff :
    JsString.endsWith (JsUrl.pathname url.text) sessionProbePath = true ↔ url.EndsInMe := by
  have hr : ∀ p ∈ JsUrl.resolveDots [] url.parts, '/' ∉ p := by
    intro p hp
    obtain rfl | h | h := JsUrl.mem_resolveDots hp
    · simp
    · simp at h
    · exact parts_plain p h
  rw [pathname_text, JsString.endsWith, List.isSuffixOf_iff_suffix, String.toList_ofList, EndsInMe,
    ← JsUrl.joinPath_suffix_iff hr (by decide)]
  rfl

theorem isLogin_namesLogin (h : url.IsLogin) : url.NamesLogin := by
  have hs : ["login".toList] <:+ JsUrl.resolveDots [] url.parts := by
    rw [h]
    exact JsUrl.suffix_resolveDots <| by decide
  have hm := hs.subset (List.mem_singleton.mpr rfl)
  obtain h | h | h := JsUrl.mem_resolveDots hm
  · simp at h
  · simp at h
  · exact .inr <| .inl ⟨_, h, by decide⟩

theorem isSessionProbe_endsInMe (h : url.IsSessionProbe) : url.EndsInMe := by
  rw [EndsInMe, h]
  exact JsUrl.suffix_resolveDots <| by decide

theorem IsLogin.not_endsInMe (h : url.IsLogin) : ¬url.EndsInMe := by
  intro hm
  have hs : ["login".toList] <:+ JsUrl.resolveDots [] url.parts := by
    rw [h]
    exact JsUrl.suffix_resolveDots <| by decide
  obtain ⟨_, hs⟩ := hs
  obtain ⟨_, hm⟩ := hm
  have := congrArg List.getLast? <| hs.trans hm.symm
  simp at this

end RequestUrl

-- The pattern over the whole URL decides first, then the marker, then the end of the path.
theorem classifyUnauthorized_cases (url : RequestUrl) (header : Option String) :
    (url.NamesLogin ∨ errorOrigin header = some "gateway") ∧
      classifyUnauthorized header url.text = .inline ∨
    ¬(url.NamesLogin ∨ errorOrigin header = some "gateway") ∧
      (errorOrigin header = some "oam" ∨ url.EndsInMe) ∧
      classifyUnauthorized header url.text = .expire ∨
    ¬(url.NamesLogin ∨ errorOrigin header = some "gateway") ∧
      ¬(errorOrigin header = some "oam" ∨ url.EndsInMe) ∧
      classifyUnauthorized header url.text = .verify := by
  simp only [classifyUnauthorized, ← RequestUrl.testLogin_text, ← RequestUrl.endsWith_probePath_iff]
  split
  case isTrue h => exact .inl ⟨.inl h, rfl⟩
  case isFalse hl =>
    split
    case isTrue h => exact .inl ⟨.inr h, rfl⟩
    case isFalse hg =>
      have hn := not_or.mpr ⟨hl, hg⟩
      split
      case isTrue h => exact .inr <| .inl ⟨hn, .inl h, rfl⟩
      case isFalse ho =>
        split
        case isTrue h  => exact .inr <| .inl ⟨hn, .inr h, rfl⟩
        case isFalse h => exact .inr <| .inr ⟨hn, not_or.mpr ⟨ho, h⟩, rfl⟩

theorem inline_iff : classifyUnauthorized header url.text = .inline ↔
    url.NamesLogin ∨ errorOrigin header = some "gateway" := by
  obtain ⟨h, hc⟩ | ⟨h, _, hc⟩ | ⟨h, _, hc⟩ := classifyUnauthorized_cases url header <;> simp [h, hc]

theorem expire_iff : classifyUnauthorized header url.text = .expire ↔
    ¬(url.NamesLogin ∨ errorOrigin header = some "gateway") ∧
      (errorOrigin header = some "oam" ∨ url.EndsInMe) := by
  obtain ⟨h, hc⟩ | ⟨h, hm, hc⟩ | ⟨h, hm, hc⟩ := classifyUnauthorized_cases url header
  all_goals simp only [hc, h, true_and, false_and, not_true, not_false_eq_true, reduceCtorEq]
  all_goals simp [hm]

theorem verify_iff : classifyUnauthorized header url.text = .verify ↔
    ¬(url.NamesLogin ∨ errorOrigin header = some "gateway") ∧
      ¬(errorOrigin header = some "oam" ∨ url.EndsInMe) := by
  obtain ⟨h, hc⟩ | ⟨h, hm, hc⟩ | ⟨h, hm, hc⟩ := classifyUnauthorized_cases url header
  all_goals simp only [hc, h, true_and, false_and, not_true, not_false_eq_true, reduceCtorEq]
  all_goals simp [hm]

theorem Unmistakable.login_iff (h : Unmistakable url header) :
    url.NamesLogin ∨ errorOrigin header = some "gateway" ↔
      url.IsLogin ∨ errorOrigin header = some "gateway" := by
  obtain h | ⟨hn, -⟩ := h
  · simp [h]
  · exact or_congr_left ⟨hn, RequestUrl.isLogin_namesLogin⟩

theorem Unmistakable.session_iff (h : Unmistakable url header)
    (hn : ¬(url.IsLogin ∨ errorOrigin header = some "gateway")) :
    errorOrigin header = some "oam" ∨ url.EndsInMe ↔
      errorOrigin header = some "oam" ∨ url.IsSessionProbe := by
  obtain h | ⟨-, hm⟩ := h
  · exact absurd (.inr h) hn
  · by_cases ho : errorOrigin header = some "oam"
    · simp [ho]
    · exact or_congr_right ⟨hm ho, RequestUrl.isSessionProbe_endsInMe⟩

-- A 401 is routed by its provenance just if nothing in its URL can be mistaken for one of the routes.
theorem routedByProvenance_iff_unmistakable (url : RequestUrl) (header : Option String) :
    RoutedByProvenance url header ↔ Unmistakable url header := by
  constructor
  case mp =>
    intro h
    by_cases hg : errorOrigin header = some "gateway"
    case pos => exact .inl hg
    case neg =>
      have hn : url.NamesLogin → url.IsLogin := fun hn =>
        (h.inline.mp <| inline_iff.mpr <| .inl hn).resolve_right hg
      refine .inr ⟨hn, fun ho hm => ?_⟩
      have hl : ¬url.NamesLogin := fun hl => (hn hl).not_endsInMe hm
      have he := expire_iff.mpr ⟨not_or.mpr ⟨hl, hg⟩, .inr hm⟩
      exact (h.expire.mp he).right.resolve_left ho
  case mpr =>
    intro h
    constructor
    case inline => rw [inline_iff, h.login_iff]
    case expire =>
      rw [expire_iff, h.login_iff]
      exact and_congr_right h.session_iff
    case verify =>
      rw [verify_iff, h.login_iff]
      exact and_congr_right fun hn => not_congr <| h.session_iff hn

end Parts

section Names

def apiBase : ApiBase where
  host   := none
  path   := [⟨"api".toList, by decide⟩, ⟨"oam".toList, by decide⟩]
  rooted := fun _ => ⟨_, _, rfl, by decide⟩

-- The session has ended while a rule named `login` was deleted.
theorem not_routedByProvenance_login : ¬∀ (base : ApiBase) id name url header,
    deleteLbByName base id name = some url → RoutedByProvenance url header := by
  intro h
  have h := (h apiBase 1 "login" _ (some "oam") rfl).inline.mp <| by decide
  obtain h | h := h
  · simp only [RequestUrl.IsLogin] at h
    exact absurd h <| by decide
  · exact absurd h <| by decide

end Names

end FetcherBase
