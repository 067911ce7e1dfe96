import LoxilbUi.Connector.Metrics
import LoxilbUi.Observability.Theorems.FlatSums
import Mathlib.Algebra.Order.Ring.Abs
import Mathlib.Tactic.Linarith

-- Both ways to read an exposition give each name the sum of its finite samples, where no name is that of
-- an inherited member.

namespace Metrics

open Observability Parser Pattern

section Value

variable {u v t : List Char} {c : Char}

def isDecimalChar (c : Char) : Bool :=
  c.isDigit || c = '.' || c = 'e' || c = 'E' || c = '+' || c = '-'

-- The text ends here, or goes on with what no decimal holds.
def Stops (t : List Char) : Prop :=
  ∀ c ∈ t.head?, isDecimalChar c = false

theorem Stops.digit (h : Stops t) : ∀ c ∈ t.head?, c.isDigit = false := by
  intro c hc
  have hd := h c hc
  simp only [isDecimalChar, Bool.or_eq_false_iff] at hd
  exact hd.1.1.1.1.1

theorem takes_sign (hu : u ∈ sign.lang) (ht : ∀ c ∈ t.head?, isSign c = false) : Takes sign u t [] := by
  obtain rfl | ⟨c, hc, rfl⟩ := mem_opt.mp hu
  · exact takes_opt_none <| matchStart_one_none ht
  · exact (takes_one hc).opt

theorem not_isSign_of_isDigit (h : c.isDigit = true) : isSign c = false := by
  cases hc : isSign c
  case false => rfl
  case true  =>
    simp only [isSign, Bool.or_eq_true, decide_eq_true_eq] at hc
    obtain rfl | rfl := hc <;> cases h

theorem takes_exponent (hu : u ∈ exponent.lang) (ht : Stops t) : Takes exponent u t [] := by
  obtain ⟨_, ⟨e, he, rfl⟩, _, hw, rfl⟩ := mem_seq.mp hu
  obtain ⟨sg, hs, ds, hd, rfl⟩ := mem_seq.mp hw
  obtain ⟨hn, hd⟩ := mem_plus.mp hd
  obtain ⟨d, ds, rfl⟩ := List.exists_cons_of_ne_nil hn
  refine (takes_one he).seq <| (takes_sign hs ?_).seq (takes_plus hn hd ht.digit)
  rintro _ ⟨⟩
  exact not_isSign_of_isDigit <| hd d <| .head _

theorem takes_opt_exponent (hu : u ∈ (opt exponent).lang) (ht : Stops t) : Takes (opt exponent) u t [] := by
  obtain rfl | hu := mem_opt.mp hu
  · refine takes_opt_none <| matchStart_seq_none <| matchStart_one_none fun c hc => ?_
    have hd := ht c hc
    simp only [isDecimalChar, Bool.or_eq_false_iff] at hd
    simp [hd.1.1.1.2, hd.1.1.2]
  · exact (takes_exponent hu ht).opt

-- Neither a digit nor a point follows.
def Ends (t : List Char) : Prop :=
  ∀ c ∈ t.head?, c.isDigit = false ∧ c ≠ '.'

theorem Stops.ends (h : Stops t) : Ends t := by
  intro c hc
  have hd := h c hc
  simp only [isDecimalChar, Bool.or_eq_false_iff, decide_eq_false_iff_not] at hd
  exact ⟨hd.1.1.1.1.1, hd.1.1.1.1.2⟩

theorem Ends.exponent (hu : u ∈ (opt exponent).lang) (h : Ends t) : Ends (u ++ t) := by
  obtain rfl | hu := mem_opt.mp hu
  · exact h
  · obtain ⟨_, ⟨e, he, rfl⟩, w, -, rfl⟩ := mem_seq.mp hu
    rintro _ ⟨⟩
    have he : e = 'e' ∨ e = 'E' := by simpa using he
    obtain rfl | rfl := he <;> exact ⟨rfl, by decide⟩

-- A mantissa begins with a digit or with the point.
theorem mantissa_head (hu : u ∈ mantissa.lang) : ∃ c w, u = c :: w ∧ (c.isDigit = true ∨ c = '.') := by
  obtain hu | hu := mem_alt.mp hu
  · obtain ⟨ds, hd, w, -, rfl⟩ := mem_seq.mp hu
    obtain ⟨hn, hd⟩ := mem_plus.mp hd
    obtain ⟨d, ds, rfl⟩ := List.exists_cons_of_ne_nil hn
    exact ⟨d, ds ++ w, rfl, .inl <| hd d <| .head _⟩
  · obtain ⟨_, hp, w, -, rfl⟩ := mem_seq.mp hu
    obtain rfl := mem_char.mp hp
    exact ⟨'.', w, rfl, .inr rfl⟩

theorem takes_mantissa (hu : u ∈ mantissa.lang) (ht : Ends t) : Takes mantissa u t [] := by
  have hdt : ∀ c ∈ t.head?, c.isDigit = false := fun c hc => (ht c hc).1
  obtain hu | hu := mem_alt.mp hu
  · obtain ⟨ds, hd, _, hw, rfl⟩ := mem_seq.mp hu
    obtain ⟨hn, hd⟩ := mem_plus.mp hd
    obtain ⟨p, hp, fs, hf, rfl⟩ := mem_seq.mp hw
    have hf := mem_many.mp hf
    obtain rfl | hp := mem_opt.mp hp
    · -- Without a point all the digits are of the first part.
      have hp : matchStart (char '.') t = none := matchStart_one_none fun c hc => by simpa using (ht c hc).2
      have hds : ∀ c ∈ ds ++ fs, c.isDigit = true := fun c hc => (List.mem_append.mp hc).elim (hd c) (hf c)
      have h := (takes_plus (by simp [hn]) hds hdt).seq <| (takes_opt_none hp).seq <| takes_many (u := []) nofun hdt
      rw [List.append_nil, List.append_nil] at h
      exact h.alt_left
    · obtain rfl := mem_char.mp hp
      exact ((takes_plus hn hd <| by simp).seq <| takes_char.opt.seq <| takes_many hf hdt).alt_left
  · obtain ⟨_, hp, ds, hd, rfl⟩ := mem_seq.mp hu
    obtain rfl := mem_char.mp hp
    obtain ⟨hn, hd⟩ := mem_plus.mp hd
    refine (takes_char.seq <| takes_plus hn hd hdt).alt_right ?_
    exact matchStart_seq_none <| matchStart_seq_none <| matchStart_one_none <| by simp

theorem takes_decimal (hu : u ∈ decimal.lang) (ht : Stops t) : Takes decimal u t [] := by
  obtain ⟨sg, hs, _, hw, rfl⟩ := mem_seq.mp hu
  obtain ⟨m, hm, ex, he, rfl⟩ := mem_seq.mp hw
  refine (takes_sign hs ?_).seq <| (takes_mantissa hm <| ht.ends.exponent he).seq <| takes_opt_exponent he ht
  obtain ⟨c, w, rfl, hc⟩ := mantissa_head hm
  rintro _ ⟨⟩
  obtain hc | rfl := hc
  · exact not_isSign_of_isDigit hc
  · rfl

-- What may stand before a name.
theorem mem_sign : u ∈ sign.lang ↔ u = [] ∨ u = ['+'] ∨ u = ['-'] := by
  rw [sign, mem_opt, mem_one]
  simp only [isSign, Bool.or_eq_true, decide_eq_true_eq]
  refine or_congr_right ⟨?_, ?_⟩
  · rintro ⟨c, rfl | rfl, rfl⟩
    · exact .inl rfl
    · exact .inr rfl
  · rintro (rfl | rfl)
    · exact ⟨_, .inl rfl, rfl⟩
    · exact ⟨_, .inr rfl, rfl⟩

theorem takes_value (hu : u ∈ valuePattern.lang) (ht : Stops t) : Takes valuePattern u t [] := by
  obtain hu | hu := mem_alt.mp hu
  · exact (takes_decimal hu ht).alt_left
  · obtain hu | hu := mem_alt.mp hu
    · obtain ⟨sg, hs, w, hw, rfl⟩ := mem_seq.mp hu
      obtain rfl := mem_text.mp hw
      obtain rfl | rfl | rfl := mem_sign.mp hs
      all_goals exact ((takes_sign hs <| by simp [isSign]).seq takes_text).alt_left.alt_right rfl
    · obtain rfl := mem_text.mp hu
      exact (takes_text.alt_right rfl).alt_right rfl

theorem isDecimalChar_of_mem (hu : u ∈ decimal.lang) (hc : c ∈ u) : isDecimalChar c = true := by
  have h : decimal.toRegex.chars c = true := Regex.chars_of_mem hu hc
  simp only [decimal, sign, mantissa, exponent, Pattern.plus, char, toRegex, Regex.opt, Regex.chars, isSign,
    Bool.or_eq_true, decide_eq_true_eq] at h
  simp only [isDecimalChar, Bool.or_eq_true, decide_eq_true_eq]
  tauto

-- A name is no number.
theorem numberOf_name (hu : u ∈ valuePattern.lang) (hc : c ∈ u) (h : isDecimalChar c = false) :
    (numberOf u).finite? = none := by
  have hn : 'N' ∈ u ∨ 'I' ∈ u := by
    obtain hu | hu := mem_alt.mp hu
    · rw [isDecimalChar_of_mem hu hc] at h
      cases h
    · obtain hu | hu := mem_alt.mp hu
      · obtain ⟨sg, -, w, hw, rfl⟩ := mem_seq.mp hu
        obtain rfl := mem_text.mp hw
        exact .inr <| List.mem_append_right _ <| .head _
      · obtain rfl := mem_text.mp hu
        exact .inl <| .head _
  have hd : (decide ('N' ∈ u) || decide ('I' ∈ u)) = true := by simpa using hn
  have hv : numberOf u = .nan := by
    unfold numberOf
    exact if_pos hd
  rw [hv]
  rfl

theorem exists_of_search {p : Char → Bool} {s : Pattern} (h : search (seq (one p) s) u = true) :
    ∃ c ∈ u, p c = true := by
  obtain ⟨t, ht, hs⟩ := List.any_eq_true.mp h
  obtain ⟨f, hf⟩ := Option.isSome_iff_exists.mp hs
  obtain ⟨hl, he⟩ := of_mem_run <| List.mem_of_mem_head? hf
  obtain ⟨_, ⟨c, hc, rfl⟩, w, -, hw⟩ := mem_seq.mp hl
  refine ⟨c, (List.mem_tails ..).mp ht |>.subset ?_, hc⟩
  rw [← he, ← hw]
  exact List.mem_append_left _ <| List.mem_append_left _ <| .head _

-- Both readers take a value for the same number, or for none.
theorem number_agrees {value : Value} (hu : u ∈ valuePattern.lang) (h : parseValue u = some value) :
    (numberOf u).finite? = value.finite? := by
  rw [parseValue] at h
  split at h
  case isTrue  => cases h
  case isFalse =>
    split at h
    case isTrue hs =>
      obtain ⟨c, hc, hp⟩ := exists_of_search hs
      obtain rfl := Option.some.inj h
      refine numberOf_name hu hc ?_
      have hp : c = 'I' ∨ c = 'i' := by simpa using hp
      obtain rfl | rfl := hp <;> rfl
    case isFalse =>
      split at h
      case isTrue hs =>
        obtain ⟨c, hc, hp⟩ := exists_of_search hs
        obtain rfl := Option.some.inj h
        refine numberOf_name hu hc ?_
        have hp : c = 'N' ∨ c = 'n' := by simpa using hp
        obtain rfl | rfl := hp <;> rfl
      case isFalse =>
        split at h
        case h_1 => cases h
        case h_2 => rw [Option.some.inj h]

end Value

section Rows

-- The text of a label, with what would end it escaped.
def escape (c : Char) : List Char :=
  if c = '\\' then ['\\', '\\']
  else if c = '"' then ['\\', '"']
  else if c = '\n' then ['\\', 'n']
  else [c]

def pairText (pair : String × String) : List Char :=
  pair.1.toList ++ '=' :: '"' :: pair.2.toList.flatMap escape ++ ['"']

def labelText (labels : Labels) : List Char :=
  if labels.entries = [] then []
  else '\x7b' :: [','].intercalate (labels.entries.map pairText) ++ ['\x7d']

def isGap (c : Char) : Bool :=
  c = ' ' || c = '\t'

-- A sample as a line of an exposition: a time may stand behind its value.
structure Row where
  sample    : MetricSample
  gap       : List Char
  value     : List Char
  tail      : List Char
  nameValid : sample.name.toList ∈ namePattern.lang
  labelled  : ∀ p ∈ sample.labels.entries, ∀ c ∈ p.1.toList, c.isAlphanum || c = '_'
  gapped    : gap ≠ [] ∧ ∀ c ∈ gap, isGap c = true
  valued    : value ∈ valuePattern.lang
  parsed    : parseValue value = some sample.value
  ended     : '\n' ∉ tail ∧ ∀ c ∈ tail.head?, isGap c = true

def Row.line (row : Row) : List Char :=
  row.sample.name.toList ++ labelText row.sample.labels ++ row.gap ++ row.value ++ row.tail

-- No label of it holds the brace that ends the labels.
def NoBrace (labels : Labels) : Prop :=
  ∀ p ∈ labels.entries, '\x7d' ∉ p.2.toList

variable {row : Row} {labels : Labels} {t : List Char} {c : Char}

theorem not_mem_labels (hc : c ∉ ['=', '"', ',']) (hk : ∀ p ∈ labels.entries, c ∉ p.1.toList)
    (hv : ∀ p ∈ labels.entries, ∀ d ∈ p.2.toList, c ∉ escape d) :
    c ∉ [','].intercalate (labels.entries.map pairText) := by
  simp only [List.mem_cons, List.not_mem_nil, or_false, not_or] at hc
  refine JsString.not_mem_intercalate hc.2.2 fun w hw => ?_
  obtain ⟨p, hp, rfl⟩ := List.mem_map.mp hw
  simp only [pairText, List.mem_append, List.mem_cons, List.mem_flatMap, List.not_mem_nil, or_false]
  rintro ((h | h | h | ⟨d, hd, h⟩) | h)
  · exact hk p hp h
  · exact hc.1 h
  · exact hc.2.1 h
  · exact hv p hp d hd h
  · exact hc.2.1 h

theorem not_mem_escape {d : Char} (hb : c ≠ '\\') (hq : c ≠ '"') (hn : c ≠ 'n') (hd : c = d → d = '\n') :
    c ∉ escape d := by
  rw [escape]
  split
  · simpa using hb
  · split
    · simp [hb, hq]
    · split
      · simp [hb, hn]
      · simpa using fun h => absurd (hd h) ‹_›

theorem not_mem_name (hl : ∀ p ∈ labels.entries, ∀ c ∈ p.1.toList, c.isAlphanum || c = '_')
    (hc : (c.isAlphanum || c = '_') = false) : ∀ p ∈ labels.entries, c ∉ p.1.toList := by
  intro p hp h
  rw [hl p hp c h] at hc
  cases hc

theorem newline_not_mem_labelText (hl : ∀ p ∈ labels.entries, ∀ c ∈ p.1.toList, c.isAlphanum || c = '_') :
    '\n' ∉ labelText labels := by
  rw [labelText]
  split
  · exact List.not_mem_nil
  · have h := not_mem_labels (by decide) (not_mem_name hl (by decide))
      fun p _ d _ => not_mem_escape (by decide) (by decide) (by decide) Eq.symm
    simp [h]

theorem takes_labelText (hl : ∀ p ∈ labels.entries, ∀ c ∈ p.1.toList, c.isAlphanum || c = '_')
    (hb : NoBrace labels) (ht : ∀ c ∈ t.head?, isGap c = true) :
    ∃ gs, Takes (opt <| group 2 labelsPattern) (labelText labels) t gs ∧ ∀ p ∈ gs, p.1 = 2 := by
  rw [labelText]
  split
  case isTrue =>
    refine ⟨[], takes_opt_none ?_, nofun⟩
    have hn : matchStart labelsPattern t = none := by
      refine matchStart_seq_none <| matchStart_one_none fun c hc => ?_
      have hg := ht c hc
      simp only [isGap, Bool.or_eq_true, decide_eq_true_eq] at hg
      obtain rfl | rfl := hg <;> rfl
    rw [matchStart_eq_none_iff] at hn ⊢
    exact hn
  case isFalse =>
    have he : ∀ p ∈ labels.entries, ∀ d ∈ p.2.toList, '\x7d' ∉ escape d := by
      intro p hp d hd
      refine not_mem_escape (by decide) (by decide) (by decide) fun h => ?_
      exact absurd (h ▸ hd) (hb p hp)
    have hc := not_mem_labels (by decide) (not_mem_name hl (by decide)) he
    have hm : ∀ c ∈ [','].intercalate (labels.entries.map pairText), decide (c ≠ '\x7d') = true := by
      intro c hm
      refine decide_eq_true ?_
      rintro rfl
      exact hc hm
    have hg : ∀ c ∈ (['\x7d'] ++ t).head?, decide (c ≠ '\x7d') = false := by simp
    exact ⟨_, (takes_char.seq <| (takes_many hm hg).seq takes_char).group.opt, by simp⟩

theorem isGap_iff : isGap c = true ↔ c = ' ' ∨ c = '\t' := by
  simp [isGap]

theorem forall_head?_append {p : Char → Prop} {u : List Char} (hn : u ≠ []) (h : ∀ c ∈ u, p c) :
    ∀ c ∈ (u ++ t).head?, p c := by
  obtain ⟨d, w, rfl⟩ := List.exists_cons_of_ne_nil hn
  rintro _ ⟨⟩
  exact h d <| .head _

-- A value does not begin with a blank.
theorem value_head {u : List Char} (hu : u ∈ valuePattern.lang) :
    ∀ c ∈ (u ++ t).head?, JsString.isBlank c = false := by
  obtain hu | hu := mem_alt.mp hu
  · obtain ⟨sg, -, _, hw, rfl⟩ := mem_seq.mp hu
    obtain ⟨m, hm, ex, -, rfl⟩ := mem_seq.mp hw
    obtain ⟨d, w, rfl, -⟩ := mantissa_head hm
    refine forall_head?_append (by simp) fun c hc => ?_
    have hd := isDecimalChar_of_mem hu hc
    cases hb : JsString.isBlank c
    case false => rfl
    case true  =>
      have hn := JsString.isBlank_bounds hb
      simp only [isDecimalChar, Char.isDigit, Bool.or_eq_true, Bool.and_eq_true, decide_eq_true_eq] at hd
      obtain ((((⟨h₁, h₂⟩ | rfl) | rfl) | rfl) | rfl) | rfl := hd
      · have h₁ : 48 ≤ c.toNat := h₁
        have h₂ : c.toNat ≤ 57 := h₂
        omega
      all_goals simp at hn
  · obtain hu | hu := mem_alt.mp hu
    · obtain ⟨sg, hs, w, hw, rfl⟩ := mem_seq.mp hu
      obtain rfl := mem_text.mp hw
      obtain rfl | rfl | rfl := mem_sign.mp hs <;> rintro _ ⟨⟩ <;> rfl
    · obtain rfl := mem_text.mp hu
      rintro _ ⟨⟩
      rfl

theorem takes_name {u : List Char} (hu : u ∈ namePattern.lang) (ht : ∀ c ∈ t.head?, isNameChar c = false) :
    Takes namePattern u t [] := by
  obtain ⟨_, ⟨c, hc, rfl⟩, w, hw, rfl⟩ := mem_seq.mp hu
  exact (takes_one hc).seq <| takes_many (mem_many.mp hw) ht

theorem matchStart_line (hb : NoBrace row.sample.labels) : ∃ f, matchStart linePattern row.line = some f ∧
    f.get? 1 = some row.sample.name.toList ∧ f.get? 3 = some row.value := by
  obtain ⟨hgn, hg⟩ := row.gapped
  have hgb : ∀ c ∈ row.gap, JsString.isBlank c = true := by
    intro c hc
    obtain rfl | rfl := isGap_iff.mp (hg c hc) <;> decide
  have hstop : Stops row.tail := by
    intro c hc
    obtain rfl | rfl := isGap_iff.mp (row.ended.2 c hc) <;> rfl
  have hlg : ∀ c ∈ (row.gap ++ row.value ++ row.tail).head?, isGap c = true := by
    rw [List.append_assoc]
    exact forall_head?_append hgn hg
  obtain ⟨gs, hl, hgs⟩ := takes_labelText (t := row.gap ++ row.value ++ row.tail) row.labelled hb hlg
  have hname : ∀ c ∈ (labelText row.sample.labels ++ (row.gap ++ row.value) ++ row.tail).head?,
      isNameChar c = false := by
    rw [List.append_assoc]
    by_cases he : row.sample.labels.entries = []
    · intro c hc
      rw [labelText, if_pos he, List.nil_append] at hc
      obtain rfl | rfl := isGap_iff.mp (hlg c hc) <;> rfl
    · rw [labelText, if_neg he]
      rintro _ ⟨⟩
      rfl
  have h := (takes_name row.nameValid hname).group (n := 1) |>.seq <| hl.seq <|
    (takes_plus hgn hgb <| value_head row.valued).seq <| (takes_value row.valued hstop).group (n := 3)
  have hline : row.line = row.sample.name.toList ++ (labelText row.sample.labels ++ (row.gap ++ row.value)) ++
      row.tail := by simp only [Row.line, List.append_assoc]
  have hno : gs.lookup 3 = none := by
    refine List.lookup_eq_none_iff.mpr fun p hp => ?_
    simp [hgs p hp]
  rw [hline]
  refine ⟨_, h, rfl, ?_⟩
  simp [Found.get?, List.lookup_append, hno, List.lookup_cons]

theorem newline_not_mem_line : '\n' ∉ row.line := by
  have hn : '\n' ∉ row.sample.name.toList := fun h => by
    have := Regex.chars_of_mem row.nameValid h
    contradiction
  have hg : '\n' ∉ row.gap := fun h => by
    have := row.gapped.2 _ h
    contradiction
  have hv : '\n' ∉ row.value := fun h => by
    have := Regex.chars_of_mem row.valued h
    contradiction
  simp only [Row.line, List.mem_append, not_or]
  exact ⟨⟨⟨⟨hn, newline_not_mem_labelText row.labelled⟩, hg⟩, hv⟩, row.ended.1⟩

theorem addLine_row {values : Dict Flat} (hb : NoBrace row.sample.labels) :
    addLine values (.ofList row.line) = accumulate values row.sample.name row.sample.value := by
  obtain ⟨f, hf, h₁, h₃⟩ := matchStart_line hb
  obtain ⟨_, ⟨c, hc, rfl⟩, w, -, hn⟩ := mem_seq.mp row.nameValid
  have hne : (decide (String.ofList row.line = "") || JsString.startsWith (.ofList row.line) "#") = false := by
    have hl : ∃ t, row.line = c :: t := ⟨_, by
      rw [Row.line, ← hn]
      simp only [List.append_assoc, List.cons_append]
      rfl⟩
    obtain ⟨t, hl⟩ := hl
    have hh : c ≠ '#' := by
      rintro rfl
      contradiction
    simp [hl, JsString.startsWith, List.isPrefixOf, hh.symm, ← String.toList_inj]
  rw [addLine, hne]
  simp only [Bool.false_eq_true, if_false, String.toList_ofList, hf, h₁, h₃, Option.getD_some, String.ofList_toList]
  have ha := number_agrees row.valued row.parsed
  cases hv : row.sample.value.finite?
  case none   => rw [accumulate_of_none hv, accumulate_of_none (ha.trans hv)]
  case some q => rw [accumulate_of_some hv, accumulate_of_some (ha.trans hv)]

end Rows

section Text

-- A line of an exposition, and what stands between the samples.
inductive Line
  | row (r : Row)
  | comment (text : List Char) (h : '\n' ∉ text)
  | blank

def Line.text : Line → String
  | row r          => .ofList r.line
  | comment text _ => .ofList ('#' :: text)
  | blank          => ""

def Line.sample? : Line → Option MetricSample
  | row r => some r.sample
  | _     => none

def textOf (lines : List Line) : String :=
  "\n".intercalate <| lines.map Line.text

variable {lines : List Line} {line : Line} {values : Dict Flat}

theorem newline_not_mem_text : '\n' ∉ line.text.toList := by
  cases line <;> rw [Line.text]
  case row r          => simpa using newline_not_mem_line
  case comment text h => simpa using h
  case blank          => exact List.not_mem_nil

theorem addLine_line (hb : ∀ s, line.sample? = some s → NoBrace s.labels) : addLine values line.text =
    line.sample?.toList.foldl (fun values s => accumulate values s.name s.value) values := by
  cases line
  case row r          => exact addLine_row <| hb _ rfl
  case comment text h => simp [Line.text, addLine, JsString.startsWith, Line.sample?]
  case blank          => rfl

theorem parsePrometheusText_eq (hb : ∀ s ∈ lines.filterMap Line.sample?, NoBrace s.labels) :
    parsePrometheusText (textOf lines) = accumulated (lines.filterMap Line.sample?) := by
  have hf : (lines.map Line.text).foldl addLine .empty = accumulated (lines.filterMap Line.sample?) := by
    rw [accumulated]
    induction lines using List.reverseRecOn
    case nil => rfl
    case append_singleton lines line hi =>
      simp only [List.filterMap_append, List.mem_append, or_imp, forall_and] at hb
      rw [List.map_append, List.map_singleton, List.foldl_concat, hi hb.1, List.filterMap_append,
        List.foldl_append, addLine_line fun s hs => hb.2 s <| by simp [hs]]
      cases line <;> rfl
  rw [parsePrometheusText, JsString.split]
  by_cases hl : lines = []
  · subst hl
    rfl
  · rw [textOf, JsString.splitOn_intercalate rfl (by simpa using hl), List.map_map]
    · simpa [Function.comp_def] using hf
    · intro s hs
      obtain ⟨line, -, rfl⟩ := List.mem_map.mp hs
      exact newline_not_mem_text

end Text

section Cover

variable {snapshot : MetricsSnapshot} {lines : List Line}

-- The lines are those of the samples of a scrape. Names may be mixed, but the samples of one name stand
-- in the order that the scrape has them in, since the order of a sum of doubles matters.
def Renders (lines : List Line) (snapshot : MetricsSnapshot) : Prop :=
  SameByName (lines.filterMap Line.sample?) (samplesOf snapshot)

-- Both readings give each name the sum of its finite samples, and nothing to any other name.
structure SumsCover (snapshot : MetricsSnapshot) (lines : List Line) : Prop where
  flat : SumsExactly (samplesOf snapshot) (projectFlatSums snapshot)
  text : SumsExactly (samplesOf snapshot) (parsePrometheusText <| textOf lines)

def NoBraces (snapshot : MetricsSnapshot) : Prop :=
  ∀ s ∈ samplesOf snapshot, NoBrace s.labels

theorem sumsExactly_flat_iff :
    SumsExactly (samplesOf snapshot) (projectFlatSums snapshot) ↔ NoInherited (samplesOf snapshot) := by
  rw [projectFlatSums_eq, sumsExactly_accumulated_iff]

theorem noInherited_congr (h : Renders lines snapshot) :
    NoInherited (lines.filterMap Line.sample?) ↔ NoInherited (samplesOf snapshot) :=
  forall_congr' fun _ => imp_congr_left h.mem_iff

theorem sumsExactly_text_iff (hr : Renders lines snapshot) (hb : NoBraces snapshot) :
    SumsExactly (samplesOf snapshot) (parsePrometheusText <| textOf lines) ↔ NoInherited (samplesOf snapshot) := by
  rw [parsePrometheusText_eq fun s hs => hb s <| hr.mem_iff.mp hs, ← sumsExactly_congr hr,
    sumsExactly_accumulated_iff, noInherited_congr hr]

theorem sumsCover_iff_noInherited (hr : Renders lines snapshot) :
    (SumsCover snapshot lines → NoInherited (samplesOf snapshot)) ∧
      (NoBraces snapshot → (SumsCover snapshot lines ↔ NoInherited (samplesOf snapshot))) := by
  refine ⟨fun h => sumsExactly_flat_iff.mp h.flat, fun hb => ?_⟩
  constructor
  case mp  => exact fun h => sumsExactly_flat_iff.mp h.flat
  case mpr => exact fun h => ⟨sumsExactly_flat_iff.mpr h, (sumsExactly_text_iff hr hb).mpr h⟩

-- A brace in a label hides the sample from the older reading.
example : (parsePrometheusText "up\x7bpath=\"\x7d\"\x7d 1").get? "up" = none := by
  decide +kernel

-- The doubles that 0.1 and 0.2 are.
def tenth : ℚ :=
  3602879701896397 / 2 ^ 55

def twoTenths : ℚ :=
  3602879701896397 / 2 ^ 54

def sampleOf (name path : String) (q : ℚ) : MetricSample :=
  ⟨name, .ofList [("path", path)], .finite q⟩

theorem named_load : "load".toList ∈ namePattern.lang :=
  Regex.test_iff.mp <| by decide

theorem named_constructor : "constructor".toList ∈ namePattern.lang :=
  Regex.test_iff.mp <| by decide

theorem labelled_path {path : String} {q : ℚ} {name : String} :
    ∀ p ∈ (sampleOf name path q).labels.entries, ∀ c ∈ p.1.toList, c.isAlphanum || c = '_' := by
  intro p hp
  obtain rfl := List.mem_singleton.mp hp
  exact List.all_eq_true.mp (by decide : "path".toList.all (fun c => c.isAlphanum || c = '_') = true)

theorem noBrace_sampleOf {path : String} {q : ℚ} {name : String} (h : '\x7d' ∉ path.toList) :
    NoBrace (sampleOf name path q).labels := by
  intro p hp
  obtain rfl := List.mem_singleton.mp hp
  exact h

theorem valued_tenth : ['0', '.', '1'] ∈ valuePattern.lang :=
  Regex.test_iff.mp <| by decide

theorem valued_twoTenths : ['0', '.', '2'] ∈ valuePattern.lang :=
  Regex.test_iff.mp <| by decide

theorem parseValue_tenth : parseValue ['0', '.', '1'] = some (.finite tenth) := by
  decide +kernel

theorem parseValue_twoTenths : parseValue ['0', '.', '2'] = some (.finite twoTenths) := by
  decide +kernel

theorem gapped_blank : [' '] ≠ [] ∧ ∀ c ∈ [' '], isGap c = true :=
  ⟨by decide, List.all_eq_true.mp <| by decide⟩

theorem ended_nil : '\n' ∉ ([] : List Char) ∧ ∀ c ∈ ([] : List Char).head?, isGap c = true := by
  simp

theorem ended_time : '\n' ∉ " 1700000000000".toList ∧ ∀ c ∈ " 1700000000000".toList.head?, isGap c = true :=
  ⟨by decide, fun _ hc => Option.some.inj hc ▸ by decide⟩

def tenthRow (name path : String) (h : name.toList ∈ namePattern.lang) : Row where
  sample    := sampleOf name path tenth
  gap       := [' ']
  value     := ['0', '.', '1']
  tail      := []
  nameValid := h
  labelled  := labelled_path
  gapped    := gapped_blank
  valued    := valued_tenth
  parsed    := parseValue_tenth
  ended     := ended_nil

def twoTenthsRow (name path : String) (h : name.toList ∈ namePattern.lang) : Row where
  sample    := sampleOf name path twoTenths
  gap       := [' ']
  value     := ['0', '.', '2']
  tail      := " 1700000000000".toList
  nameValid := h
  labelled  := labelled_path
  gapped    := gapped_blank
  valued    := valued_twoTenths
  parsed    := parseValue_twoTenths
  ended     := ended_time

-- A scrape of samples of one name.
def scrapeOf (name : String) (samples : List MetricSample) : MetricsSnapshot where
  receivedAtMs := 0
  available    := true
  failure      := none
  families     := .ofList [(name, ⟨name, samples⟩)]

-- The sum of 0.1 and 0.2 is what it is in doubles.
theorem sumsCover_load :
    SumsCover (scrapeOf "load" [sampleOf "load" "a\"b" tenth, sampleOf "load" "/" twoTenths])
      [.row (tenthRow "load" "a\"b" named_load), .blank, .row (twoTenthsRow "load" "/" named_load)] ∧
    totalOf [tenth, twoTenths] = some (.sum <| .finite <| 1351079888211149 / 2 ^ 52) := by
  refine ⟨((sumsCover_iff_noInherited fun _ => rfl).2 ?_).mpr ?_, by decide +kernel⟩
  · intro s hs
    obtain rfl | hs := List.mem_cons.mp hs
    · exact noBrace_sampleOf <| by decide
    · obtain rfl := List.mem_singleton.mp hs
      exact noBrace_sampleOf <| by decide
  · intro s hs _
    obtain rfl | hs := List.mem_cons.mp hs
    · simp [sampleOf, PlainObject.members]
    · obtain rfl := List.mem_singleton.mp hs
      simp [sampleOf, PlainObject.members]

theorem not_sumsCover : ¬∀ snapshot lines, Renders lines snapshot → SumsCover snapshot lines := by
  intro h
  have hr : Renders [.row (tenthRow "constructor" "/" named_constructor)]
      (scrapeOf "constructor" [sampleOf "constructor" "/" tenth]) := fun _ => rfl
  have hn := sumsExactly_flat_iff.mp (h _ _ hr).flat
  exact hn _ (List.mem_singleton_self _) rfl <| by simp [sampleOf, PlainObject.members]

end Cover

end Metrics
