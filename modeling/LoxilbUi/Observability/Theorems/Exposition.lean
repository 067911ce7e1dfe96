import LoxilbUi.Observability.Theorems.LabelKey
import Mathlib.Algebra.Ring.Nat

-- What holds of the result of every text, whatever is wrong with it.

namespace Exposition

open Observability Parser Pattern

section Kept

def identityOf (s : ParsedSample) : String :=
  s.name ++ " " ++ s.labelKey

structure SampleKept (family : String) (s : ParsedSample) : Prop where
  named    : s.name.toList ∈ nameRe.lang
  owned    : ∃ suffix ∈ "" :: suffixes, s.name = family ++ suffix
  readable : Readable s.labels
  keyed    : s.labelKey = labelKeyOf s.labels

structure FamilyKept (name : String) (f : Family) : Prop where
  keyed    : f.name = name
  named    : name.toList ∈ nameRe.lang
  raw      : f.rawType = none ↔ f.type ≠ .unknown
  seen     : f.seen = f.samples.map identityOf
  distinct : f.seen.Nodup
  samples  : ∀ s ∈ f.samples, SampleKept name s

def seriesOf (families : Dict Family) : List ParsedSample :=
  families.entries.flatMap fun p => p.2.samples

structure Kept (st : State) : Prop where
  families : ∀ name f, st.families.get? name = some f → FamilyKept name f
  declared : ∀ name token, st.typedFamilies.get? name = some token → name.toList ∈ nameRe.lang
  total    : st.totalSamples = (seriesOf st.families).length
  bounded  : st.totalSamples ≤ Limits.sampleCount
  warned   : st.warnings.length = min st.skippedSamples (maxWarnings + 1)

variable {st st' : State} {name line token : String} {labels : Labels} {value : Value} {ts : Option ℚ}
  {f g : Family} {msg : List Nat} {rest : List Char}

theorem kept_init : Kept .init where
  families := nofun
  declared := nofun
  total    := rfl
  bounded  := Nat.zero_le _
  warned   := rfl

theorem rawTypeOf_eq_none_iff : rawTypeOf token = none ↔ typeOf token ≠ .unknown := by
  have hk : ∀ p ∈ knownTypes, p.2 ≠ .unknown := by decide
  rw [rawTypeOf, typeOf]
  cases h : knownTypes.lookup token
  case none   => simp
  case some t => simpa using hk _ <| Dict.mem_of_lookup h

theorem Kept.familyOf (h : Kept st) (hn : name.toList ∈ nameRe.lang) : FamilyKept name (st.familyOf name) := by
  rw [State.familyOf]
  cases hg : st.families.get? name
  case some f => exact h.families name f hg
  case none   =>
    refine ⟨rfl, hn, ?_, rfl, .nil, nofun⟩
    cases st.typedFamilies.get? name
    case none       => simp
    case some token => simpa using rawTypeOf_eq_none_iff

-- What a family that is put in adds to the samples.
theorem flatMap_put {families : List (String × Family)} {new : List ParsedSample}
    (hg : g.samples = ((families.lookup name).map Family.samples).getD [] ++ new) :
    ((Dict.put name g families).flatMap fun p => p.2.samples).Perm
      ((families.flatMap fun p => p.2.samples) ++ new) := by
  induction families
  case nil => simp [Dict.put, hg]
  case cons p families hi =>
    obtain ⟨k, f⟩ := p
    rw [Dict.lookup_cons] at hg
    rw [Dict.put]
    by_cases hk : k = name
    · rw [if_pos hk, List.flatMap_cons, List.flatMap_cons]
      rw [if_pos hk.symm] at hg
      rw [hg, Option.map_some, Option.getD_some, List.append_assoc, List.append_assoc]
      exact List.perm_append_comm.append_left _
    · rw [if_neg hk, List.flatMap_cons, List.flatMap_cons, List.append_assoc]
      rw [if_neg (Ne.symm hk)] at hg
      exact (hi hg).append_left _

theorem samples_familyOf :
    (st.familyOf name).samples = ((st.families.entries.lookup name).map Family.samples).getD [] := by
  rw [State.familyOf, Dict.get?]
  cases st.families.entries.lookup name <;> rfl

theorem seriesOf_put {new : List ParsedSample} (hg : g.samples = (st.familyOf name).samples ++ new) :
    (seriesOf (st.put name g).families).Perm (seriesOf st.families ++ new) :=
  flatMap_put <| by rw [hg, samples_familyOf]

theorem seriesOf_put_same (hg : g.samples = (st.familyOf name).samples) :
    (seriesOf (st.put name g).families).Perm (seriesOf st.families) := by
  have h : (seriesOf (st.put name g).families).Perm (seriesOf st.families ++ []) :=
    seriesOf_put <| by rw [hg, List.append_nil]
  rwa [List.append_nil] at h

theorem seriesOf_push {s : ParsedSample} {i : String} :
    (seriesOf (st.put name <| (st.familyOf name).push s i).families).Perm (seriesOf st.families ++ [s]) :=
  seriesOf_put rfl

theorem Kept.families_put (h : Kept st) (hf : FamilyKept name g) :
    ∀ k f, (st.put name g).families.get? k = some f → FamilyKept k f := by
  intro k f hk
  rw [State.put, Dict.get?_set] at hk
  split at hk
  case isTrue he  => exact he ▸ Option.some.inj hk ▸ hf
  case isFalse he => exact h.families k f hk

-- A family that holds the samples it held before.
theorem Kept.put (h : Kept st) (hf : FamilyKept name g) (hg : g.samples = (st.familyOf name).samples) :
    Kept (st.put name g) where
  families := h.families_put hf
  declared := h.declared
  total    := h.total.trans (seriesOf_put_same hg).length_eq.symm
  bounded  := h.bounded
  warned   := h.warned

theorem length_warn {warnings : List (List Nat)} {n : Nat} (h : warnings.length = min n (maxWarnings + 1)) :
    (State.warn msg warnings).length = min (n + 1) (maxWarnings + 1) := by
  rw [State.warn]
  split
  · rw [List.length_append, List.length_singleton]
    omega
  · split
    · rw [List.length_append, List.length_singleton]
      omega
    · omega

theorem Kept.skip (h : Kept st) : Kept (st.skip msg) :=
  { h with warned := length_warn h.warned }

theorem FamilyKept.retype (h : FamilyKept name f) :
    FamilyKept name { f with type := typeOf token, rawType := rawTypeOf token } :=
  ⟨h.keyed, h.named, rawTypeOf_eq_none_iff, h.seen, h.distinct, h.samples⟩

theorem FamilyKept.rehelp {help : Option String} (h : FamilyKept name f) : FamilyKept name { f with help := help } :=
  ⟨h.keyed, h.named, h.raw, h.seen, h.distinct, h.samples⟩

theorem Kept.help (h : Kept st) (hn : name.toList ∈ nameRe.lang) : Kept (st.help name rest) :=
  h.put (h.familyOf hn).rehelp rfl

theorem Kept.declare (h : Kept st) (hn : name.toList ∈ nameRe.lang) : Kept (st.declare name rest) := by
  have hd : Kept { st with typedFamilies := st.typedFamilies.set name (JsString.trim <| .ofList rest) } := by
    refine { h with declared := fun k token hk => ?_ }
    rw [Dict.get?_set] at hk
    split at hk
    case isTrue he  => exact he ▸ hn
    case isFalse he => exact h.declared k token hk
  exact hd.put (hd.familyOf hn).retype rfl

theorem endsWith_take {s suffix : String} (h : JsString.endsWith s suffix = true) :
    s = .ofList (s.toList.take (s.toList.length - suffix.toList.length)) ++ suffix := by
  obtain ⟨t, ht⟩ := List.isSuffixOf_iff_suffix.mp h
  refine String.toList_inj.mp ?_
  rw [String.toList_append, String.toList_ofList, ← ht, List.length_append, Nat.add_sub_cancel, List.take_left]

theorem baseOf_eq_some {types : Dict String} {suffix base : String} (h : baseOf name types suffix = some base) :
    name = base ++ suffix ∧ ∃ token, types.get? base = some token ∧ folds token suffix = true := by
  rw [baseOf] at h
  split at h
  case isFalse    => cases h
  case isTrue hse =>
    dsimp only at h
    split at h
    case isFalse   => cases h
    case isTrue ht =>
      obtain rfl := Option.some.inj h
      obtain ⟨token, htoken, hf⟩ := Option.any_eq_true .. |>.mp ht
      exact ⟨endsWith_take hse, token, htoken, hf⟩

-- A sample is kept in the family of its own name, or in one that is declared and folds its suffix.
theorem familyNameOf_cases {types : Dict String} : familyNameOf name types = name ∨
    ∃ suffix ∈ suffixes, name = familyNameOf name types ++ suffix ∧
      ∃ token, types.get? (familyNameOf name types) = some token ∧ folds token suffix = true := by
  rw [familyNameOf]
  cases h : suffixes.findSome? (baseOf name types)
  case none      => exact .inl rfl
  case some base =>
    obtain ⟨suffix, hs, hb⟩ := List.exists_of_findSome?_eq_some h
    exact .inr ⟨suffix, hs, baseOf_eq_some hb⟩

theorem Kept.familyNameOf (h : Kept st) (hn : name.toList ∈ nameRe.lang) :
    (familyNameOf name st.typedFamilies).toList ∈ nameRe.lang ∧
      ∃ suffix ∈ "" :: suffixes, name = familyNameOf name st.typedFamilies ++ suffix := by
  obtain he | ⟨suffix, hs, he, token, ht, -⟩ := @familyNameOf_cases name st.typedFamilies
  · rw [he]
    exact ⟨hn, "", .head _, by simp⟩
  · exact ⟨h.declared _ _ ht, suffix, .tail _ hs, he⟩

theorem space_not_mem_name (hn : name.toList ∈ nameRe.lang) : ' ' ∉ name.toList := fun h => by
  have := Regex.chars_of_mem hn h
  contradiction

-- A new series of a family.
theorem FamilyKept.push {s : ParsedSample} (h : FamilyKept name f) (hs : SampleKept name s)
    (hn : identityOf s ∉ f.seen) : FamilyKept name (f.push s <| identityOf s) where
  keyed    := h.keyed
  named    := h.named
  raw      := h.raw
  seen     := by simp [Family.push, h.seen]
  distinct := by
    rw [Family.push, List.nodup_append]
    refine ⟨h.distinct, List.nodup_singleton _, fun a ha b hb he => hn ?_⟩
    rwa [← List.mem_singleton.mp hb, ← he]
  samples  := fun s' hs' => (List.mem_append.mp hs').elim (h.samples s') fun hm => List.mem_singleton.mp hm ▸ hs

theorem Kept.add (h : Kept st) (hn : name.toList ∈ nameRe.lang) (hl : Readable labels)
    (hb : st.totalSamples + 1 ≤ Limits.sampleCount) : Kept (st.add name labels value ts) := by
  obtain ⟨hf, howned⟩ := h.familyNameOf hn
  have hf := h.familyOf hf
  rw [State.add]
  split
  case isTrue     => exact (h.put hf rfl).skip
  case isFalse hi =>
    let s : ParsedSample := ⟨⟨name, labels, value⟩, labelKeyOf labels, ts⟩
    have hs : SampleKept (Exposition.familyNameOf name st.typedFamilies) s := ⟨hn, howned, hl, rfl⟩
    exact {
      families := h.families_put (hf.push hs hi)
      declared := h.declared
      total    := by
        have hl := (@seriesOf_push st (Exposition.familyNameOf name st.typedFamilies) s <| identityOf s).length_eq
        rw [List.length_append, List.length_singleton, ← h.total] at hl
        exact hl.symm
      bounded  := hb
      warned   := h.warned
    }

end Kept

section Step

variable {st st' : State} {name name' line raw : String} {labels labels' : Labels} {value : Value} {ts : Option ℚ}
  {err : LimitError} {rest : List Char}

theorem readTime_sample {time : Option (List Char)} {value' : Value}
    (h : readTime line name labels value time = .sample name' labels' value' ts) : name' = name ∧ labels' = labels := by
  cases time
  case none      => simp_all [readTime]
  case some text =>
    rw [readTime] at h
    split at h
    · cases h
    · simp_all

theorem readNumbers_sample {token : List Char} {time : Option (List Char)}
    (h : readNumbers line name labels token time = .sample name' labels' value ts) :
    name' = name ∧ labels' = labels := by
  rw [readNumbers] at h
  split at h
  case isTrue  => cases h
  case isFalse =>
    split at h
    · cases h
    · exact readTime_sample h

theorem readValue_sample (h : readValue line name labels rest = .sample name' labels' value ts) :
    (name' = name ∧ labels' = labels) ∧ name.toList ∈ nameRe.lang := by
  rw [readValue] at h
  split at h
  case isTrue     => cases h
  case isFalse hm =>
    refine ⟨?_, by simpa [matchWhole_eq_none_iff] using hm⟩
    split at h
    · exact readNumbers_sample h
    · exact readNumbers_sample h
    · cases h

-- A line that is read as a sample has a name and labels of the format.
theorem readSample_sample (h : readSample line = .sample name labels value ts) :
    name.toList ∈ nameRe.lang ∧ Readable labels := by
  simp only [readSample] at h
  split at h
  case isTrue =>
    split at h
    · cases h
    · cases h
    · next labels' rest' hd =>
      obtain ⟨⟨rfl, rfl⟩, hn⟩ := readValue_sample h
      exact ⟨hn, readable_empty.parseLabels hd⟩
  case isFalse =>
    split at h
    · obtain ⟨⟨rfl, rfl⟩, hn⟩ := readValue_sample h
      exact ⟨hn, readable_empty⟩
    · cases h

theorem captures_commentRe : commentRe.captures =
    [(1, oneOf "HELP" ["TYPE"]), (2, nameRe), (3, many fun c => !isLineEnd c)] :=
  rfl

theorem Kept.comment (h : Kept st) : Kept (comment st line) := by
  rw [Exposition.comment]
  split
  case h_1      => exact h
  case h_2 m hm =>
    obtain ⟨u, hu, hn⟩ := exists_group (n := 2) (s := nameRe) hm rfl <| by simp [captures_commentRe]
    have hn : (String.ofList <| (m.get? 2).getD []).toList ∈ nameRe.lang := by
      rwa [hu, Option.getD_some, String.toList_ofList]
    dsimp only
    split
    · exact h.help hn
    · exact h.declare hn

-- One line.
theorem Kept.readLine (h : Kept st) (hs : readLine st raw = .ok st') : Kept st' := by
  simp only [Exposition.readLine] at hs
  split at hs
  case isTrue => exact Except.ok.inj hs ▸ h
  case isFalse =>
    split at hs
    case isTrue  => cases hs
    case isFalse =>
      split at hs
      case isTrue  => exact Except.ok.inj hs ▸ h.comment
      case isFalse =>
        split at hs
        case h_1     => cases hs
        case h_2     => exact Except.ok.inj hs ▸ h.skip
        case h_3 hr  =>
          split at hs
          case isTrue     => cases hs
          case isFalse hb =>
            obtain ⟨hn, hl⟩ := readSample_sample hr
            exact Except.ok.inj hs ▸ h.add hn hl (Nat.le_of_not_lt hb)

theorem Kept.readLines {lines : List String} (h : Kept st) : Kept (readLines st lines).1 := by
  induction lines generalizing st
  case nil              => exact h
  case cons line lines hi =>
    rw [Exposition.readLines]
    split
    case h_1 hs => exact hi <| h.readLine hs
    case h_2    => exact h

end Step

section Count

variable {st st' : State} {name line raw : String} {labels : Labels} {value : Value} {ts : Option ℚ} {rest : List Char}
  {err : LimitError} {lines : List String}

-- A line that is neither blank nor a comment.
def isSampleLine (raw : String) : Bool :=
  JsString.trim raw ≠ "" && !JsString.startsWith (JsString.trim raw) "#"

-- The lines that a state has told of, as samples or as skipped.
def State.told (st : State) : Nat :=
  st.totalSamples + st.skippedSamples

theorem told_comment : (comment st line).told = st.told := by
  rw [comment]
  split
  · rfl
  · dsimp only
    split <;> rfl

theorem told_add : (st.add name labels value ts).told = st.told + 1 := by
  simp only [State.add]
  split
  · rfl
  · exact Nat.add_right_comm ..

theorem told_readLine (h : readLine st raw = .ok st') : st'.told = st.told + (isSampleLine raw).toNat := by
  simp only [readLine] at h
  split at h
  case isTrue hb =>
    obtain rfl := Except.ok.inj h
    simp [isSampleLine, hb]
  case isFalse hb =>
    split at h
    case isTrue  => cases h
    case isFalse =>
      split at h
      case isTrue hc =>
        obtain rfl := Except.ok.inj h
        simp [isSampleLine, hc, told_comment]
      case isFalse hc =>
        have hs : (isSampleLine raw).toNat = 1 := by simp [isSampleLine, hb, hc]
        rw [hs]
        split at h
        case h_1 => cases h
        case h_2 => exact Except.ok.inj h ▸ rfl
        case h_3 =>
          split at h
          case isTrue  => cases h
          case isFalse => exact Except.ok.inj h ▸ told_add

-- The line breaks a limit, with `kept` samples before it.
inductive Breaks (kept : Nat) (l : String) : LimitError → Prop
  | line (h : Limits.lineLength < JsString.length (JsString.trim l)) :
    Breaks kept l ⟨.lineLength, Limits.lineLength, JsString.length (JsString.trim l)⟩
  | label {observed : Nat} (hs : isSampleLine l = true) (h : readSample (JsString.trim l) = .breach observed) :
    Breaks kept l ⟨.labelLength, Limits.labelLength, observed⟩
  | count {n : String} {ls : Labels} {v : Value} {time : Option ℚ} (hs : isSampleLine l = true)
    (h : readSample (JsString.trim l) = .sample n ls v time) (hk : Limits.sampleCount ≤ kept) :
    Breaks kept l ⟨.sampleCount, Limits.sampleCount, kept + 1⟩

theorem breaks_of_error (h : readLine st raw = .error err) : Breaks st.totalSamples raw err := by
  simp only [readLine] at h
  split at h
  case isTrue     => cases h
  case isFalse hb =>
    split at h
    case isTrue hl  => exact Except.error.inj h ▸ .line hl
    case isFalse    =>
      split at h
      case isTrue     => cases h
      case isFalse hc =>
        have hs : isSampleLine raw = true := by simp [isSampleLine, hb, hc]
        split at h
        case h_1 hr => exact Except.error.inj h ▸ .label hs hr
        case h_2    => cases h
        case h_3 hr =>
          split at h
          case isTrue hk => exact Except.error.inj h ▸ .count hs hr (Nat.le_of_lt_succ hk)
          case isFalse   => cases h

-- What a line breaks by itself, no state gets past.
theorem not_breaks_of_ok (h : readLine st raw = .ok st') : ¬Breaks 0 raw err := by
  have hz {n : Nat} (h : n > Limits.lineLength) (t : String) (ht : JsString.length t = n) : t ≠ "" := by
    rintro rfl
    subst ht
    exact absurd h (by decide)
  rintro (hl | ⟨hs, hr⟩ | ⟨-, -, hk⟩)
  case line =>
    simp only [readLine, hz hl _ rfl, hl, if_true, if_false] at h
    cases h
  case label =>
    simp only [isSampleLine, ne_eq, decide_not, Bool.and_eq_true, Bool.not_eq_true',
      decide_eq_false_iff_not] at hs
    simp only [readLine, hs, hr, Bool.false_eq_true, if_false] at h
    split at h <;> cases h
  case count => exact absurd hk (by decide)

-- Each sample line before the one that breaks a limit is kept or counted as skipped.
theorem told_readLines {e : Option LimitError} (h : readLines st lines = (st', e)) :
    ∃ before, (e = none ∧ lines = before ∨ ∃ line after err, lines = before ++ line :: after ∧
        e = some err ∧ Breaks st'.totalSamples line err) ∧
      (∀ l ∈ before, ∀ err, ¬Breaks 0 l err) ∧ st'.told = st.told + before.countP isSampleLine := by
  induction lines generalizing st
  case nil =>
    obtain ⟨rfl, rfl⟩ := Prod.mk.inj h
    exact ⟨[], .inl ⟨rfl, rfl⟩, by simp, rfl⟩
  case cons line lines hi =>
    rw [readLines] at h
    split at h
    case h_1 st₁ hs =>
      obtain ⟨before, hr, hb, ht⟩ := hi h
      refine ⟨line :: before, ?_, List.forall_mem_cons.mpr ⟨fun _ => not_breaks_of_ok hs, hb⟩, ?_⟩
      · obtain ⟨he, rfl⟩ | ⟨l, after, err, rfl, he, hl⟩ := hr
        · exact .inl ⟨he, rfl⟩
        · exact .inr ⟨l, after, err, rfl, he, hl⟩
      · rw [ht, told_readLine hs, List.countP_cons, Nat.add_assoc, Nat.add_comm (Bool.toNat _)]
        cases isSampleLine line <;> rfl
    case h_2 hs =>
      obtain ⟨rfl, rfl⟩ := Prod.mk.inj h
      exact ⟨[], .inr ⟨line, lines, _, rfl, rfl, breaks_of_error hs⟩, by simp, rfl⟩

theorem limit_parseLabels {l : List Char} {n : Nat} (h : parseLabels labels l = .breach n) :
    Limits.labelLength < n := by
  induction labels, l using parseLabels.induct
  case case1 hm =>
    rw [parseLabels_done hm] at h
    cases h
  case case2 hm hp =>
    rw [parseLabels_none hm hp] at h
    cases h
  case case3 hm _ _ _ hp _ hl =>
    rw [parseLabels_some hm hp, if_pos hl] at h
    exact LabelParse.breach.inj h ▸ hl
  case case4 hm _ _ _ hp _ hl hi =>
    rw [parseLabels_some hm hp, if_neg hl] at h
    exact hi h

theorem readValue_ne_breach {n : Nat} : readValue line name labels rest ≠ .breach n := by
  have ht (value : Value) (time : Option (List Char)) : readTime line name labels value time ≠ .breach n := by
    cases time
    case none      => exact SampleLine.noConfusion
    case some text =>
      rw [readTime]
      split <;> exact SampleLine.noConfusion
  have hn (token : List Char) (time : Option (List Char)) : readNumbers line name labels token time ≠ .breach n := by
    rw [readNumbers]
    split
    · exact SampleLine.noConfusion
    · split
      · exact SampleLine.noConfusion
      · exact ht _ _
  rw [readValue]
  split
  · exact SampleLine.noConfusion
  · split
    · exact hn _ _
    · exact hn _ _
    · exact SampleLine.noConfusion

theorem limit_readSample {n : Nat} (h : readSample line = .breach n) : Limits.labelLength < n := by
  simp only [readSample] at h
  split at h
  case isTrue =>
    split at h
    case h_1 hd => exact SampleLine.breach.inj h ▸ limit_parseLabels hd
    case h_2    => cases h
    case h_3    => exact absurd h readValue_ne_breach
  case isFalse =>
    split at h
    · exact absurd h readValue_ne_breach
    · cases h

theorem limit_readLine (h : readLine st raw = .error err) : err.limit < err.observed := by
  simp only [readLine] at h
  split at h
  case isTrue  => cases h
  case isFalse =>
    split at h
    case isTrue hl =>
      obtain rfl := Except.error.inj h
      dsimp only
      exact hl
    case isFalse =>
      split at h
      case isTrue  => cases h
      case isFalse =>
        split at h
        case h_1 observed hs =>
          obtain rfl := Except.error.inj h
          exact limit_readSample hs
        case h_2 => cases h
        case h_3 =>
          split at h
          case isTrue hb =>
            obtain rfl := Except.error.inj h
            dsimp only
            exact hb
          case isFalse => cases h

theorem limit_readLines (h : (readLines st lines).2 = some err) : err.limit < err.observed := by
  induction lines generalizing st
  case nil => cases h
  case cons line lines hi =>
    rw [readLines] at h
    split at h
    case h_1    => exact hi h
    case h_2 hs => exact Option.some.inj h ▸ limit_readLine hs

end Count

section Result

variable {st : State} {e : Option LimitError} {r : ParseResult} {text : String}

-- What a caller can rely on, of a text that may be damaged anywhere.
structure Sound (r : ParseResult) : Prop where
  families : ∀ name f, r.families.get? name = some f →
    f.name = name ∧ name.toList ∈ nameRe.lang ∧ (f.rawType = none ↔ f.type ≠ .unknown)
  samples  : ∀ name f, r.families.get? name = some f → ∀ s ∈ f.samples, SampleKept name s
  -- No family holds two samples of one series, in whatever order their labels are written.
  distinct : ∀ name f, r.families.get? name = some f →
    f.samples.Pairwise fun s s' => ¬(s.name = s'.name ∧ ∀ k, s.labels.get? k = s'.labels.get? k)
  total    : r.diagnostics.totalSamples = (r.families.entries.flatMap fun p => p.2.samples).length
  bounded  : r.diagnostics.totalSamples ≤ Limits.sampleCount
  warned   : r.diagnostics.warnings.length = min r.diagnostics.skippedSamples (maxWarnings + 1)
  foreign  : r.diagnostics.dependencyFamilies = (r.families.keys.filter isDependencyFamily).length
  limit    : ∀ err, r.limitError = some err → err.limit < err.observed

theorem families_result :
    (result st e).families = .ofList (st.families.entries.map fun p => (p.2.name, p.2.parsed)) :=
  rfl

theorem result_families (h : Kept st) : (result st e).families = st.families.map Family.parsed := by
  have hf : (st.families.entries.map fun p => (p.2.name, p.2.parsed)) = (st.families.map Family.parsed).entries := by
    rw [Dict.map_entries]
    refine List.map_congr_left fun p hp => ?_
    have hk := (h.families p.1 p.2 <| Dict.get?_eq_some_iff.mpr hp).keyed
    exact congrArg (·, p.2.parsed) hk
  have he := Dict.entries_ofList (st.families.map Family.parsed).nodup
  rw [families_result, hf]
  exact Dict.eq_of_entries he

theorem FamilyKept.pairwise {name : String} {f : Family} (h : FamilyKept name f) :
    f.samples.Pairwise fun s s' => ¬(s.name = s'.name ∧ ∀ k, s.labels.get? k = s'.labels.get? k) := by
  have hd := h.distinct
  rw [h.seen, List.Nodup, List.pairwise_map] at hd
  refine hd.imp_of_mem fun hs hs' hne => ?_
  rintro ⟨hn, hl⟩
  have hs := h.samples _ hs
  have hs' := h.samples _ hs'
  refine hne ?_
  rw [identityOf, identityOf, hn, hs.keyed, hs'.keyed, (labelKeyOf_inj_iff hs.readable hs'.readable).mpr hl]

theorem sound_result (h : Kept st) (hl : ∀ err, e = some err → err.limit < err.observed) : Sound (result st e) where
  families name f hf := by
    rw [result_families h, Dict.get?_map, Option.map_eq_some_iff] at hf
    obtain ⟨g, hg, rfl⟩ := hf
    have hk := h.families name g hg
    exact ⟨hk.keyed, hk.named, hk.raw⟩
  samples name f hf := by
    rw [result_families h, Dict.get?_map, Option.map_eq_some_iff] at hf
    obtain ⟨g, hg, rfl⟩ := hf
    exact (h.families name g hg).samples
  distinct name f hf := by
    rw [result_families h, Dict.get?_map, Option.map_eq_some_iff] at hf
    obtain ⟨g, hg, rfl⟩ := hf
    exact (h.families name g hg).pairwise
  total    := by
    rw [result_families h, Dict.map_entries, List.flatMap_map]
    exact h.total
  bounded  := h.bounded
  warned   := h.warned
  foreign  := by
    rw [result_families h, Dict.keys, Dict.map_entries, List.map_map, List.filter_map, List.length_map]
    refine congrArg List.length <| List.filter_congr fun p hp => ?_
    have hk := (h.families p.1 p.2 <| Dict.get?_eq_some_iff.mpr hp).keyed
    exact congrArg isDependencyFamily hk
  limit    := hl

theorem parse_sound : Sound (parseExposition text) := by
  rw [parseExposition]
  split
  case isTrue hb =>
    refine sound_result kept_init fun err he => ?_
    obtain rfl := Option.some.inj he
    dsimp only
    exact hb
  case isFalse =>
    exact sound_result kept_init.readLines fun err he => limit_readLines he

-- The lines that a result tells of: all of them, or those before the line that breaks the limit it names, and
-- none of a text that is too long as a whole.
inductive Reached (t : String) (res : ParseResult) : List String → Prop
  | all (h : res.limitError = none) : Reached t res (JsString.split t '\n')
  | broken {before after : List String} {line : String} {err : LimitError}
    (hl : JsString.split t '\n' = before ++ line :: after) (h : res.limitError = some err)
    (hb : Breaks res.diagnostics.totalSamples line err) : Reached t res before
  | body (h : res.limitError = some ⟨.bodyBytes, Limits.bodyBytes, JsString.length t⟩)
    (hb : Limits.bodyBytes < JsString.length t) : Reached t res []

-- Each line that is neither blank nor a comment is a sample or is counted as skipped, up to the line that
-- breaks a limit if there is one.
theorem parse_told : ∃ before, Reached text (parseExposition text) before ∧
    (∀ l ∈ before, ∀ err, ¬Breaks 0 l err) ∧
    (parseExposition text).diagnostics.totalSamples + (parseExposition text).diagnostics.skippedSamples =
      before.countP isSampleLine := by
  rw [parseExposition]
  split
  case isTrue hb => exact ⟨[], .body rfl hb, by simp, rfl⟩
  case isFalse   =>
    obtain ⟨before, hr, hb, ht⟩ := @told_readLines .init _ (JsString.split text '\n') _ rfl
    refine ⟨before, ?_, hb, ht.trans <| Nat.zero_add _⟩
    obtain ⟨he, hl⟩ | ⟨line, after, err, hl, he, hb⟩ := hr
    · exact hl ▸ .all he
    · exact .broken hl he hb

end Result

end Exposition
