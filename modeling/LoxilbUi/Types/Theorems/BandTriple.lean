import LoxilbUi.Library.Forall2
import LoxilbUi.Library.JsString
import LoxilbUi.Types.BandTriple

namespace AIGateway

variable {ps qs : List (List Char)} {v w : JsValue}

structure IsTriple (parts : List (List Char)) : Prop where
  length  : parts.length = 3
  numeral : ∀ part ∈ parts, part ≠ [] ∧ Decimal.AllDigits part

def tripleText (parts : List (List Char)) : String :=
  .ofList <| [':'].intercalate parts

theorem IsTriple.ne_nil (h : IsTriple ps) : ps ≠ [] := by
  rintro rfl
  simpa using h.length

theorem IsTriple.colon (h : IsTriple ps) : ∀ part ∈ ps, ':' ∉ part := fun part hp hc =>
  absurd (h.numeral part hp |>.right _ hc) (by decide)

theorem tripleText_splitOn (h : IsTriple ps) : (tripleText ps).toList.splitOn ':' = ps := by
  rw [tripleText, String.toList_ofList, List.splitOn_intercalate _ h.colon h.ne_nil]

theorem tripleParts_tripleText (h : IsTriple ps) : tripleParts (tripleText ps) = some ps := by
  have hn : ps.all (fun part => part ≠ [] && part.all Char.isDigit) = true := by
    simp only [List.all_eq_true, Bool.and_eq_true, decide_eq_true_eq]
    exact h.numeral
  simp only [tripleParts, tripleText_splitOn h, h.length, hn]
  rfl

theorem tripleText_ne_empty (h : IsTriple ps) : tripleText ps ≠ "" := by
  intro he
  have hs := tripleText_splitOn h
  rw [he] at hs
  simpa [← hs] using h.length

-- The canonical form of a triple by its numbers alone.
def canonicalOf (numbers : List JsNumber) : Option String :=
  if numbers.all (·.strictEq 0) then none else some <| ":".intercalate <| numbers.map JsNumber.toText

theorem canonicalBandTriple_text {text : String} (h : text ≠ "") :
    canonicalBandTriple (.string text) =
      match tripleParts text with
      | none       => some text
      | some parts =>
        if isResetBandTriple parts then none
        else some <| ":".intercalate <| parts.map fun part => (JsNumber.ofDigits part).toText := by
  unfold canonicalBandTriple
  split
  case h_3 he => exact absurd (JsValue.string.inj he) h
  case h_4 he =>
    cases he
    rfl
  all_goals simp_all

theorem canonicalBandTriple_triple (h : IsTriple ps) :
    canonicalBandTriple (.string <| tripleText ps) = canonicalOf (ps.map JsNumber.ofDigits) := by
  have hz : isResetBandTriple ps = (ps.map JsNumber.ofDigits).all (·.strictEq 0) := by
    simp only [isResetBandTriple, List.all_map, Function.comp_def]
  rw [canonicalBandTriple_text (tripleText_ne_empty h), tripleParts_tripleText h]
  simp only [hz, canonicalOf, List.map_map, Function.comp_def]

theorem colon_not_mem_toText {n : JsNumber} : ':' ∉ n.toText.toList := fun h => by
  obtain (h | h) | h := JsNumber.toText_chars h <;> revert h <;> decide

variable {ns ms : List JsNumber}

theorem zeros_of_all (h : ns.all (·.strictEq 0) = true) : ns = List.replicate ns.length 0 := by
  simp only [List.all_eq_true] at h
  exact List.eq_replicate_of_mem fun n hn => JsNumber.strictEq_zero_iff.mp <| h n hn

theorem canonicalOf_inj (hn : ns ≠ []) (hl : ns.length = ms.length)
    (h : canonicalOf ns = canonicalOf ms) : ns = ms := by
  have hm : ms ≠ [] := by
    rintro rfl
    exact hn <| List.length_eq_zero_iff.mp hl
  simp only [canonicalOf] at h
  split at h <;> split at h <;> try contradiction
  case isTrue.isTrue hz hz' => rw [zeros_of_all hz, zeros_of_all hz', hl]
  case isFalse.isFalse =>
    have h := JsString.intercalate_inj (c := ':') rfl (by simpa) (by simpa)
      (by simp [colon_not_mem_toText]) (by simp [colon_not_mem_toText]) (Option.some.inj h)
    exact List.map_injective_iff.mpr JsNumber.toText_injective h

-- Two triples have one canonical form when their numbers agree, and only then.
theorem canonicalBandTriple_eq_iff (hp : IsTriple ps) (hq : IsTriple qs) :
    canonicalBandTriple (.string <| tripleText ps) = canonicalBandTriple (.string <| tripleText qs) ↔
    ps.map JsNumber.ofDigits = qs.map JsNumber.ofDigits := by
  rw [canonicalBandTriple_triple hp, canonicalBandTriple_triple hq]
  refine ⟨fun h => canonicalOf_inj ?_ ?_ h, fun h => h ▸ rfl⟩
  · simpa using hp.ne_nil
  · simp [hp.length, hq.length]

-- Nothing declared.
inductive Blank : JsValue → Prop
  | undefined : Blank .undefined
  | null      : Blank .null
  | empty     : Blank (.string "")

theorem canonicalBandTriple_blank (h : Blank v) : canonicalBandTriple v = none := by
  cases h <;> rfl

def DropsZeros (p q : List Char) : Prop :=
  q ≠ [] ∧ ∃ n, p = List.replicate n '0' ++ q

-- The same triple as the gateway may return it: its numbers without their leading zeros, and the
-- reset value as nothing.
inductive TripleAlike : JsValue → JsValue → Prop
  | blank (v w : JsValue) (hv : Blank v) (hw : Blank w) : TripleAlike v w
  | same  (s : String) : TripleAlike (.string s) (.string s)
  | zeros (ps qs : List (List Char)) (hp : IsTriple ps) (h : List.Forall₂ DropsZeros ps qs) :
    TripleAlike (.string <| tripleText ps) (.string <| tripleText qs)
  | reset (ps : List (List Char)) (w : JsValue) (hp : IsTriple ps)
    (hz : ∀ p ∈ ps, ∀ c ∈ p, c = '0') (hw : Blank w) :
    TripleAlike (.string <| tripleText ps) w

theorem ofDigits_dropsZeros {p q : List Char} (h : DropsZeros p q) :
    JsNumber.ofDigits p = JsNumber.ofDigits q := by
  obtain ⟨_, n, rfl⟩ := h
  apply JsNumber.ofDigits_congr
  simp [Nat.ofDigitChars_append, Nat.ofDigitChars_replicate_zero]

theorem IsTriple.of_dropsZeros (hp : IsTriple ps) (h : List.Forall₂ DropsZeros ps qs) :
    IsTriple qs where
  length  := h.length_eq ▸ hp.length
  numeral := by
    intro q hq
    obtain ⟨p, hm, hne, n, rfl⟩ := Forall₂.exists_left h hq
    exact ⟨hne, Decimal.allDigits_append.mp (hp.numeral _ hm |>.right) |>.right⟩

theorem ofDigits_zeros {p : List Char} (h : ∀ c ∈ p, c = '0') : JsNumber.ofDigits p = 0 := by
  rw [List.eq_replicate_of_mem h, ← JsNumber.ofDigits_zero]
  apply JsNumber.ofDigits_congr
  rw [Nat.ofDigitChars_replicate_zero]
  rfl

theorem canonicalBandTriple_of_tripleAlike (h : TripleAlike v w) :
    canonicalBandTriple v = canonicalBandTriple w := by
  cases h
  case blank hv hw => rw [canonicalBandTriple_blank hv, canonicalBandTriple_blank hw]
  case same        => rfl
  case zeros ps qs hp h =>
    refine canonicalBandTriple_eq_iff hp (hp.of_dropsZeros h) |>.mpr ?_
    exact Forall₂.map_eq h fun _ _ => ofDigits_dropsZeros
  case reset ps hp hz hw =>
    have h₀ : (ps.map JsNumber.ofDigits).all (·.strictEq 0) = true := by
      simp only [List.all_map, List.all_eq_true, Function.comp_apply]
      exact fun p hm => JsNumber.strictEq_zero_iff.mpr <| ofDigits_zeros <| hz p hm
    rw [canonicalBandTriple_triple hp, canonicalBandTriple_blank hw, canonicalOf, if_pos h₀]

end AIGateway
