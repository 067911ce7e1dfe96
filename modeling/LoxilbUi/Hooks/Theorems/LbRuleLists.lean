import LoxilbUi.Hooks.LbRuleApplied

-- The lists of a rule, and by which keys and texts they are compared.

namespace LBRuleApplied

variable {e f endpoint : JsObject} {es : List JsObject}

section Sorted

theorem sortedTexts_eq_iff {l₁ l₂ : List String} : sortedTexts l₁ = sortedTexts l₂ ↔ l₁.Perm l₂ := by
  have hp (l : List String) : (sortedTexts l).Perm l := List.perm_insertionSort ..
  constructor
  · exact fun h => (hp l₁).symm.trans <| h ▸ hp l₂
  · exact fun h => ((hp l₁).trans <| h.trans (hp l₂).symm).eq_of_pairwise'
      (List.pairwise_insertionSort ..) (List.pairwise_insertionSort ..)

end Sorted

section Endpoints

-- Where a backend listens.
def address (endpoint : JsObject) : String × JsValue :=
  (text <| endpoint.get "endpointIP", endpoint.get "targetPort")

def HasPort (endpoint : JsObject) : Prop :=
  ∃ n, endpoint.get "targetPort" = .number n

theorem bar_not_mem_toText {n : JsNumber} : '|' ∉ n.toText.toList := fun h => by
  obtain (h | h) | h := JsNumber.toText_chars h <;> revert h <;> decide

theorem HasPort.text_of {n : JsNumber} (h : endpoint.get "targetPort" = .number n) :
    targetPortText endpoint = n.toText := by
  simp [targetPortText, h, JsValue.isNil, JsValue.toText]

theorem endpointKey_eq_of_address (h : address e = address f) : endpointKey e = endpointKey f := by
  simp only [address, Prod.mk.injEq] at h
  simp only [endpointKey, targetPortText, h]

-- The port holds no bar, so a key says which address it was made of.
theorem endpointKey_inj (he : HasPort e) (hf : HasPort f) (h : endpointKey e = endpointKey f) :
    address e = address f := by
  obtain ⟨n, hn⟩ := he
  obtain ⟨m, hm⟩ := hf
  simp only [endpointKey, HasPort.text_of hn, HasPort.text_of hm] at h
  obtain ⟨hi, hp⟩ := JsString.append_inj_of_not_mem (c := '|') rfl bar_not_mem_toText
    bar_not_mem_toText h
  simp only [address, hi, hn, hm, JsNumber.toText_injective hp]

theorem mem_keys_byKey {k : String} : k ∈ (byKey es).keys ↔ ∃ e ∈ es, endpointKey e = k := by
  simp [byKey, Dict.mem_keys_ofList]

theorem mem_of_get?_byKey {k : String} (h : (byKey es).get? k = some e) :
    e ∈ es ∧ endpointKey e = k := by
  have := Dict.mem_of_get?_ofList h
  simp only [List.mem_map, Prod.mk.injEq] at this
  obtain ⟨e', hm, hk, rfl⟩ := this
  exact ⟨hm, hk⟩

end Endpoints

end LBRuleApplied
