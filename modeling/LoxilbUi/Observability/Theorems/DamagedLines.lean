import LoxilbUi.Observability.Theorems.Exposition
import Mathlib.Algebra.Order.BigOperators.Group.List

-- Lines that cannot be read are left out of a text without a trace in its families.

namespace Exposition

open Observability Parser Pattern

variable {st st' : State} {name line raw text : String} {labels : Labels} {value : Value} {ts : Option ℚ}
  {rest : List Char} {lines lines' : List String} {l l' : List (List Char)} {c : Char}

section Core

-- What a state holds beside its diagnostics.
def State.core (st : State) : State :=
  { st with warnings := [], skippedSamples := 0 }

theorem core_core : st.core.core = st.core :=
  rfl

theorem core_comment : (comment st line).core = comment st.core line := by
  rw [comment, comment]
  split
  · rfl
  · dsimp only
    split <;> rfl

theorem familyOf_core : st.core.familyOf name = st.familyOf name :=
  rfl

theorem core_add : (st.add name labels value ts).core = (st.core.add name labels value ts).core := by
  have ht : st.core.typedFamilies = st.typedFamilies := rfl
  simp only [State.add, ht, familyOf_core]
  split <;> rfl

-- A line does to the core of a state what it does to the state.
theorem core_readLine : (readLine st raw).map State.core = (readLine st.core raw).map State.core := by
  simp only [readLine]
  split
  · rfl
  · split
    · rfl
    · split
      · rw [Except.map, Except.map, core_comment, ← core_comment, core_core, core_comment]
      · split
        · rfl
        · rfl
        · have ht : st.core.totalSamples = st.totalSamples := rfl
          rw [ht]
          split
          · rfl
          · rw [Except.map, Except.map, core_add]

def outcome (r : State × Option LimitError) : State × Option LimitError :=
  (r.1.core, r.2)

theorem outcome_readLines : outcome (readLines st lines) = outcome (readLines st.core lines) := by
  induction lines generalizing st
  case nil => rfl
  case cons line lines hi =>
    have hc := @core_readLine st line
    rw [readLines, readLines]
    cases hs : readLine st line <;> cases hs' : readLine st.core line <;> rw [hs, hs'] at hc
    case error.error e e' =>
      obtain rfl := Except.error.inj hc
      rfl
    case ok.ok st₁ st₂ =>
      have hc : st₁.core = st₂.core := Except.ok.inj hc
      rw [hi, hc, ← hi]
    all_goals cases hc

theorem outcome_congr (h : st.core = st'.core) : outcome (readLines st lines) = outcome (readLines st' lines) := by
  rw [outcome_readLines, h, ← outcome_readLines]

end Core

section Clean

-- A line from which nothing is read: blank, a comment of another kind, or no sample.
def isDamaged (raw : String) : Bool :=
  let line := JsString.trim raw
  line = "" || (JsString.length line ≤ Limits.lineLength &&
    if JsString.startsWith line "#" then (matchWhole commentRe line.toList).isNone
    else match readSample line with
      | .skipped _ => true
      | _          => false)

-- A text without these lines.
def clean (text : String) : String :=
  "\n".intercalate <| (JsString.split text '\n').filter (!isDamaged ·)

theorem readLine_damaged (h : isDamaged raw = true) : ∃ st', readLine st raw = .ok st' ∧ st'.core = st.core := by
  simp only [isDamaged, Bool.or_eq_true, decide_eq_true_eq, Bool.and_eq_true] at h
  simp only [readLine]
  obtain h | ⟨hl, h⟩ := h
  · exact ⟨st, if_pos h, rfl⟩
  · split
    · exact ⟨st, rfl, rfl⟩
    · rw [if_neg (Nat.not_lt_of_le hl)]
      split at h
      case isTrue hc =>
        rw [if_pos hc]
        refine ⟨_, rfl, ?_⟩
        rw [comment, Option.isNone_iff_eq_none.mp h]
      case isFalse hc =>
        rw [if_neg hc]
        split at h
        case h_1 hs =>
          rw [hs]
          exact ⟨_, rfl, rfl⟩
        case h_2 => cases h

theorem outcome_filter : outcome (readLines st <| lines.filter (!isDamaged ·)) = outcome (readLines st lines) := by
  induction lines generalizing st
  case nil => rfl
  case cons line lines hi =>
    cases hd : isDamaged line
    case false =>
      rw [List.filter_cons_of_pos (by simp [hd]), readLines, readLines]
      cases readLine st line
      case error => rfl
      case ok    => exact hi
    case true =>
      obtain ⟨st₁, hs, hc⟩ := @readLine_damaged st line hd
      rw [List.filter_cons_of_neg (by simp [hd]), readLines, hs, hi]
      exact outcome_congr hc.symm

theorem intercalate_sublist (h : l.Sublist l') : ([c].intercalate l).Sublist ([c].intercalate l') := by
  induction h
  case slnil => exact .slnil
  case cons l l' a hs hi =>
    cases l'
    case nil      => cases hs; exact List.nil_sublist _
    case cons b m =>
      rw [List.intercalate_cons_cons]
      exact hi.trans <| List.sublist_append_right ..
  case cons_cons l l' a hs hi =>
    cases l
    case nil =>
      cases l'
      case nil      => exact .refl _
      case cons b m =>
        rw [List.intercalate_cons_cons, List.append_assoc]
        simp
    case cons b m =>
      obtain ⟨b', m', rfl⟩ := List.exists_cons_of_ne_nil <| List.ne_nil_of_mem <| hs.subset <| .head _
      rw [List.intercalate_cons_cons, List.intercalate_cons_cons]
      exact (List.Sublist.refl _).append hi

theorem length_clean : JsString.length (clean text) ≤ JsString.length text := by
  have ht : text.toList = ['\n'].intercalate (text.toList.splitOn '\n') := (List.intercalate_splitOn _).symm
  have hs : (clean text).toList.Sublist text.toList := by
    rw [ht, clean, String.toList_intercalate]
    refine intercalate_sublist ?_
    have hf := (List.filter_sublist (p := (!isDamaged ·)) (l := JsString.split text '\n')).map String.toList
    simpa [JsString.split, List.map_map, Function.comp_def] using hf
  exact List.Sublist.sum_le_sum (hs.map _) <| by simp

theorem outcome_clean : outcome (readLines .init <| JsString.split (clean text) '\n') =
    outcome (readLines .init <| JsString.split text '\n') := by
  rw [← @outcome_filter .init (JsString.split text '\n'), clean]
  have hn : ∀ s ∈ (JsString.split text '\n').filter (!isDamaged ·), '\n' ∉ s.toList := fun s hs =>
    JsString.not_mem_of_mem_split <| List.mem_of_mem_filter hs
  generalize (JsString.split text '\n').filter (!isDamaged ·) = kept at hn
  by_cases hk : kept = []
  · -- What is left is one blank line.
    rw [hk]
    rfl
  · rw [JsString.split, JsString.splitOn_intercalate rfl hk hn, List.map_map]
    have hid : String.ofList ∘ String.toList = id := funext fun _ => String.ofList_toList
    rw [hid, List.map_id]

-- Neither the families nor the limit that is broken depend on the lines that cannot be read.
theorem parse_clean (h : JsString.length text ≤ Limits.bodyBytes) :
    (parseExposition (clean text)).families = (parseExposition text).families ∧
      (parseExposition (clean text)).limitError = (parseExposition text).limitError ∧
      (parseExposition (clean text)).diagnostics.totalSamples = (parseExposition text).diagnostics.totalSamples := by
  have ho := @outcome_clean text
  rw [parseExposition, parseExposition, if_neg <| Nat.not_lt_of_le h,
    if_neg <| Nat.not_lt_of_le <| length_clean.trans h]
  generalize readLines .init (JsString.split (clean text) '\n') = r at ho ⊢
  generalize readLines .init (JsString.split text '\n') = r' at ho ⊢
  have he : (outcome r).2 = (outcome r').2 := congrArg Prod.snd ho
  exact ⟨congrArg (fun o => (result o.1 o.2).families) ho, he, congrArg (fun o => o.1.totalSamples) ho⟩

-- A line that is no sample, among others.
theorem parse_clean_up : (parseExposition (clean "up 1\nnot a line\n")).families =
    (parseExposition "up 1\nnot a line\n").families :=
  (parse_clean <| by decide).1

end Clean

end Exposition
