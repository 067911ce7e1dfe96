import LoxilbUi.Observability.Theorems.LabelKey

-- The lines of a written exposition, and what is read of each.

namespace Exposition

open Observability Parser Pattern

variable {u v m t gap : List Char} {c : Char} {name token text : String} {labels : Labels} {st : State}

section Blanks

theorem trim_ends (hun : u ≠ []) (hu : ∀ c ∈ u, JsString.isBlank c = false) (hvn : v ≠ [])
    (hv : ∀ c ∈ v, JsString.isBlank c = false) : JsString.trim (.ofList (u ++ m ++ v)) = .ofList (u ++ m ++ v) := by
  rw [JsString.trim_eq_self_iff, String.toList_ofList]
  constructor
  case left =>
    obtain ⟨c, w, rfl⟩ := List.exists_cons_of_ne_nil hun
    exact List.dropWhile_cons_of_neg <| by simp [hu c <| .head _]
  case right =>
    refine List.rdropWhile_eq_self_iff.mpr fun hl => ?_
    rw [List.getLast_append_of_ne_nil _ hvn]
    simp [hv _ <| List.getLast_mem hvn]

theorem isGap_iff : isGap c = true ↔ c = ' ' ∨ c = '\t' := by
  simp [isGap]

theorem isBlank_of_isGap (h : isGap c = true) : JsString.isBlank c = true := by
  obtain rfl | rfl := isGap_iff.mp h <;> decide

theorem splitGaps_append (hu : ∀ c ∈ u, isGap c = false) :
    splitGaps (u ++ t) = (splitGaps t).modifyHead (u ++ ·) := by
  induction u
  case nil =>
    rw [List.nil_append]
    cases splitGaps t <;> rfl
  case cons c u hi =>
    obtain ⟨hc, hu⟩ := List.forall_mem_cons.mp hu
    rw [List.cons_append, splitGaps, if_neg (by simp [hc]), hi hu, List.modifyHead_modifyHead]
    rfl

theorem splitGaps_gap (hn : gap ≠ []) (hg : ∀ c ∈ gap, isGap c = true) (ht : ∀ c ∈ t.head?, isGap c = false) :
    splitGaps (gap ++ t) = [] :: splitGaps t := by
  obtain ⟨d, gap, rfl⟩ := List.exists_cons_of_ne_nil hn
  induction gap generalizing d
  case nil =>
    have hh : ¬t.head?.any isGap = true := by
      cases t
      case nil      => simp
      case cons c t => simp [ht c rfl]
    rw [List.singleton_append, splitGaps, if_pos (hg d <| .head _), if_neg hh]
  case cons e gap hi =>
    obtain ⟨hd, hg⟩ := List.forall_mem_cons.mp hg
    rw [List.cons_append, splitGaps, if_pos hd, if_pos (by simp [hg e <| .head _])]
    exact hi e (by simp) hg

end Blanks

section Names

theorem isNameChar_of_mem (hn : name.toList ∈ nameRe.lang) (hc : c ∈ name.toList) : isNameChar c = true := by
  obtain ⟨_, ⟨d, hd, rfl⟩, w, hw, he⟩ := mem_seq.mp hn
  rw [← he] at hc
  obtain hc | hc := List.mem_append.mp hc
  · rw [List.mem_singleton.mp hc]
    simp only [isNameStart, Bool.or_eq_true] at hd
    simp only [isNameChar, Bool.or_eq_true, Char.isAlphanum]
    tauto
  · exact mem_many.mp hw c hc

theorem name_ne_nil (hn : name.toList ∈ nameRe.lang) : name.toList ≠ [] := by
  obtain ⟨_, ⟨d, -, rfl⟩, w, -, he⟩ := mem_seq.mp hn
  simp [← he]

theorem isBlank_name (h : isNameChar c = true) : JsString.isBlank c = false := by
  cases hb : JsString.isBlank c
  case false => rfl
  case true  =>
    have hn := JsString.isBlank_bounds hb
    simp only [isNameChar, Bool.or_eq_true, decide_eq_true_eq] at h
    obtain (h | rfl) | rfl := h
    · have := JsString.isAlphanum_bounds h
      omega
    all_goals simp at hn

theorem isGap_name (h : isNameChar c = true) : isGap c = false := by
  cases hg : isGap c
  case false => rfl
  case true  => obtain rfl | rfl := isGap_iff.mp hg <;> contradiction

end Names

section Row

-- A time behind the value of a sample.
structure Stamp where
  gap     : List Char
  text    : List Char
  ms      : ℚ
  gapped  : gap ≠ [] ∧ ∀ c ∈ gap, isGap c = true
  decimal : text ∈ decimal.lang
  read    : finiteNumber (.ofList text) = some ms

-- A line of a sample in the older reading too, of labels that can be read.
structure Row extends Metrics.Row where
  time     : Option Stamp
  timed    : tail = (time.map fun s => s.gap ++ s.text).getD []
  readable : Readable sample.labels

def Row.read (row : Row) : ParsedSample :=
  ⟨row.sample, labelKeyOf row.sample.labels, row.time.map Stamp.ms⟩

-- What a number is written with: nothing that ends it, and nothing that begins labels.
def isNumberChar (c : Char) : Bool :=
  Metrics.isDecimalChar c || c ∈ ['I', 'n', 'f', 'N', 'a']

theorem isNumberChar_value (hu : u ∈ Metrics.valuePattern.lang) (hc : c ∈ u) : isNumberChar c = true := by
  rw [isNumberChar, Bool.or_eq_true, decide_eq_true_eq]
  obtain hu | hu := mem_alt.mp hu
  · exact .inl <| Metrics.isDecimalChar_of_mem hu hc
  · obtain hu | hu := mem_alt.mp hu
    · obtain ⟨sg, hs, w, hw, rfl⟩ := mem_seq.mp hu
      obtain rfl := mem_text.mp hw
      obtain hc | hc := List.mem_append.mp hc
      · obtain rfl | rfl | rfl := Metrics.mem_sign.mp hs
        · cases hc
        · exact .inl <| List.mem_singleton.mp hc ▸ rfl
        · exact .inl <| List.mem_singleton.mp hc ▸ rfl
      · exact .inr <| List.mem_of_mem_take (i := 3) hc
    · obtain rfl := mem_text.mp hu
      simp only [List.mem_cons, List.not_mem_nil, or_false] at hc ⊢
      tauto

theorem isNumberChar_bounds (h : isNumberChar c = true) : 43 ≤ c.toNat ∧ c.toNat ≤ 110 := by
  simp only [isNumberChar, Metrics.isDecimalChar, Bool.or_eq_true, decide_eq_true_eq, JsString.isDigit_iff,
    List.mem_cons, List.not_mem_nil, or_false] at h
  obtain (((((h | rfl) | rfl) | rfl) | rfl) | rfl) | rfl | rfl | rfl | rfl | rfl := h
  · omega
  all_goals decide

theorem isBlank_number (h : isNumberChar c = true) : JsString.isBlank c = false := by
  cases hb : JsString.isBlank c
  case false => rfl
  case true  =>
    have hc := isNumberChar_bounds h
    have hn := JsString.isBlank_bounds hb
    omega

theorem isGap_number (h : isNumberChar c = true) : isGap c = false := by
  cases hg : isGap c
  case false => rfl
  case true  =>
    have hb := isBlank_of_isGap hg
    rw [isBlank_number h] at hb
    cases hb

theorem splitGaps_number (hu : ∀ c ∈ u, isNumberChar c = true) : splitGaps u = [u] := by
  have h := splitGaps_append (t := []) fun c hc => isGap_number (hu c hc)
  rw [List.append_nil] at h
  rw [h, splitGaps, List.modifyHead_cons, List.append_nil]

theorem parseValue_ne_nil {value : Value} (h : parseValue u = some value) : u ≠ [] := by
  rintro rfl
  have hn : parseValue [] = none := by decide
  rw [hn] at h
  cases h

namespace Row

variable {row : Row}

theorem named (row : Row) : row.sample.name.toList ∈ nameRe.lang :=
  row.nameValid

theorem value_number (row : Row) : ∀ c ∈ row.value, isNumberChar c = true :=
  fun _ => isNumberChar_value row.valued

theorem stamp_number (stamp : Stamp) : ∀ c ∈ stamp.text, isNumberChar c = true := fun _ hc => by
  rw [isNumberChar, Metrics.isDecimalChar_of_mem stamp.decimal hc, Bool.true_or]

theorem stamp_ne_nil (stamp : Stamp) : stamp.text ≠ [] := fun h => by
  have hd := stamp.decimal
  rw [h] at hd
  exact absurd (Regex.test_iff.mpr hd) <| by decide

theorem value_ne_nil (row : Row) : row.value ≠ [] :=
  parseValue_ne_nil row.parsed

-- What stands behind the name and the labels, as it is left after a trim.
theorem trim_numbers (row : Row) : (JsString.trim <| .ofList (row.gap ++ (row.value ++ row.tail))).toList =
    row.value ++ row.tail := by
  have hb : ∀ c ∈ (String.ofList row.gap).toList, JsString.isBlank c = true := by
    rw [String.toList_ofList]
    intro c hc
    obtain rfl | rfl := Metrics.isGap_iff.mp <| row.gapped.2 c hc <;> decide
  have hv : ∀ c ∈ row.value, JsString.isBlank c = false := fun c hc => isBlank_number <| row.value_number c hc
  rw [String.ofList_append, JsString.trim_append_left hb, row.timed]
  cases row.time
  case none =>
    rw [Option.map_none, Option.getD_none, List.append_nil, JsString.trim_of_no_blank <| by simpa using hv,
      String.toList_ofList]
  case some stamp =>
    rw [Option.map_some, Option.getD_some, ← List.append_assoc,
      trim_ends row.value_ne_nil hv (stamp_ne_nil stamp) fun c hc => isBlank_number <| stamp_number stamp c hc,
      String.toList_ofList]

theorem readNumbers_row (row : Row) (line : String) :
    readValue line row.sample.name row.sample.labels (row.gap ++ (row.value ++ row.tail)) =
      .sample row.sample.name row.sample.labels row.sample.value (row.time.map Stamp.ms) := by
  have hm : (matchWhole nameRe row.sample.name.toList).isNone = false := by
    rw [Option.isNone_eq_false_iff, matchWhole_isSome_iff]
    exact row.nameValid
  have hn : ¬(matchWhole nameRe row.sample.name.toList).isNone = true := by simp [hm]
  rw [readValue, if_neg hn, row.trim_numbers, row.timed]
  cases row.time
  case none =>
    rw [Option.map_none, Option.getD_none, List.append_nil, splitGaps_number row.value_number]
    simp only [readNumbers, if_neg row.value_ne_nil, row.parsed, readTime, Option.map_none]
  case some stamp =>
    have hh : ∀ c ∈ stamp.text.head?, isGap c = false := fun c hc =>
      isGap_number <| stamp_number stamp c <| List.mem_of_mem_head? hc
    rw [Option.map_some, Option.getD_some, splitGaps_append fun c hc => isGap_number (row.value_number c hc),
      splitGaps_gap stamp.gapped.1 stamp.gapped.2 hh, splitGaps_number (stamp_number stamp), List.modifyHead_cons,
      List.append_nil]
    simp only [readNumbers, if_neg row.value_ne_nil, row.parsed, readTime, stamp.read, Option.map_some]

theorem line_eq (row : Row) : row.line = row.sample.name.toList ++
    (Metrics.labelText row.sample.labels ++ (row.gap ++ (row.value ++ row.tail))) := by
  simp only [Metrics.Row.line, List.append_assoc]

theorem brace_not_mem_numbers (row : Row) : '\x7b' ∉ row.gap ++ (row.value ++ row.tail) := by
  have hn {u : List Char} (h : ∀ c ∈ u, isNumberChar c = true) : '\x7b' ∉ u := fun hm => by
    have := h _ hm
    contradiction
  have hg {u : List Char} (h : ∀ c ∈ u, isGap c = true) : '\x7b' ∉ u := fun hm => by
    have := h _ hm
    contradiction
  have ht : '\x7b' ∉ row.tail := by
    rw [row.timed]
    cases row.time
    case none       => exact List.not_mem_nil
    case some stamp =>
      rw [Option.map_some, Option.getD_some, List.mem_append, not_or]
      exact ⟨hg stamp.gapped.2, hn <| stamp_number stamp⟩
  rw [List.mem_append, List.mem_append, not_or, not_or]
  exact ⟨hg row.gapped.2, hn row.value_number, ht⟩

-- A character that no name holds is not skipped.
theorem takeWhile_name (row : Row) {p : Char → Bool} (hp : ∀ c, isNameChar c = true → p c = true)
    (ht : ∀ c ∈ t.head?, p c = false) : (row.sample.name.toList ++ t).takeWhile p = row.sample.name.toList ∧
      (row.sample.name.toList ++ t).dropWhile p = t := by
  have hn : ∀ c ∈ row.sample.name.toList, p c = true := fun c hc => hp c <| isNameChar_of_mem row.named hc
  rw [List.takeWhile_append_of_pos hn, List.dropWhile_append_of_pos hn]
  cases t
  case nil      => simp
  case cons c t => simp [ht c rfl]

theorem readSample_line (row : Row) : readSample (.ofList row.line) =
    .sample row.sample.name row.sample.labels row.sample.value (row.time.map Stamp.ms) := by
  have hr := row.readNumbers_row (.ofList row.line)
  have hb := row.brace_not_mem_numbers
  simp only [readSample, String.toList_ofList]
  obtain ⟨g, gap, hg⟩ := List.exists_cons_of_ne_nil row.gapped.1
  have hgap : isGap g = true := row.gapped.2 g <| hg ▸ .head _
  by_cases hl : row.sample.labels.entries = []
  · have he : row.line = row.sample.name.toList ++ (row.gap ++ (row.value ++ row.tail)) := by
      rw [line_eq, Metrics.labelText, if_pos hl, List.nil_append]
    have hbrace : '\x7b' ∉ row.line := by
      rw [he, List.mem_append, not_or]
      refine ⟨fun hm => ?_, hb⟩
      have := isNameChar_of_mem row.named hm
      contradiction
    have hany : row.line.any isGap = true := by
      rw [he, hg]
      simp [hgap]
    obtain ⟨htake, hdrop⟩ := @takeWhile_name (row.gap ++ (row.value ++ row.tail)) row (fun c => !Exposition.isGap c)
      (fun c hc => by simp [isGap_name hc]) (by rw [hg]; rintro _ ⟨⟩; simp [hgap])
    rw [if_neg hbrace, if_pos hany, he, htake, hdrop, ← he, String.ofList_toList]
    have hempty : row.sample.labels = .empty := Dict.eq_of_entries hl
    rw [← hempty]
    exact hr
  · have he : row.line = row.sample.name.toList ++ '\x7b' :: ([','].intercalate (row.sample.labels.entries.map
        Metrics.pairText) ++ '\x7d' :: (row.gap ++ (row.value ++ row.tail))) := by
      rw [line_eq, Metrics.labelText, if_neg hl]
      simp
    have hbrace : '\x7b' ∈ row.line := by
      rw [he]
      simp
    obtain ⟨htake, hdrop⟩ := @takeWhile_name ('\x7b' :: ([','].intercalate (row.sample.labels.entries.map
      Metrics.pairText) ++ '\x7d' :: (row.gap ++ (row.value ++ row.tail)))) row (fun c => decide (c ≠ '\x7b'))
      (fun c hc => decide_eq_true fun h => by subst h; contradiction) (by simp)
    obtain ⟨labels, hle, hd⟩ := @parseLabels_written row.sample.labels row.sample.labels.entries
      (row.gap ++ (row.value ++ row.tail)) row.readable (.refl _)
    obtain rfl := Dict.eq_of_entries hle
    rw [if_pos hbrace, he, htake, hdrop, List.tail_cons, hd, ← he, String.ofList_toList]
    exact hr

theorem trim_line (row : Row) : JsString.trim (.ofList row.line) = .ofList row.line := by
  have hname : ∀ c ∈ row.sample.name.toList, JsString.isBlank c = false := fun c hc =>
    isBlank_name <| isNameChar_of_mem row.named hc
  rw [line_eq, row.timed]
  cases row.time
  case none =>
    rw [Option.map_none, Option.getD_none, List.append_nil, ← List.append_assoc, ← List.append_assoc]
    rw [List.append_assoc row.sample.name.toList]
    exact trim_ends (name_ne_nil row.named) hname row.value_ne_nil fun c hc => isBlank_number <| row.value_number c hc
  case some stamp =>
    rw [Option.map_some, Option.getD_some]
    have he : row.sample.name.toList ++ (Metrics.labelText row.sample.labels ++ (row.gap ++ (row.value ++
        (stamp.gap ++ stamp.text)))) = row.sample.name.toList ++ (Metrics.labelText row.sample.labels ++
        (row.gap ++ (row.value ++ stamp.gap))) ++ stamp.text := by simp only [List.append_assoc]
    rw [he]
    exact trim_ends (name_ne_nil row.named) hname (stamp_ne_nil stamp) fun c hc => isBlank_number <| stamp_number stamp c hc

-- A line of a sample is read as what was written.
theorem readLine_line (row : Row) (hl : JsString.length (.ofList row.line) ≤ Limits.lineLength)
    (hs : st.totalSamples + 1 ≤ Limits.sampleCount) : readLine st (.ofList row.line) =
      .ok (st.add row.sample.name row.sample.labels row.sample.value <| row.time.map Stamp.ms) := by
  obtain ⟨d, w, hw⟩ := List.exists_cons_of_ne_nil <| name_ne_nil row.named
  have hd : isNameChar d = true := isNameChar_of_mem row.named <| hw ▸ .head _
  have hline : row.line = d :: (w ++ (Metrics.labelText row.sample.labels ++ (row.gap ++ (row.value ++ row.tail)))) := by
    rw [line_eq, hw, List.cons_append]
  have hne : String.ofList row.line ≠ "" := by
    rw [hline, ← String.toList_inj.ne, String.toList_ofList]
    exact List.cons_ne_nil _ _
  have hc : ¬JsString.startsWith (.ofList row.line) "#" = true := by
    rw [JsString.startsWith_iff, hline]
    rintro ⟨r, hr⟩
    have hr : '#' :: r = d :: _ := hr.trans String.toList_ofList
    rw [← (List.cons.inj hr).1] at hd
    exact Bool.noConfusion <| hd.symm.trans (by decide : isNameChar '#' = false)
  have hl : ¬JsString.length (.ofList row.line) > Limits.lineLength := Nat.not_lt_of_le hl
  have hs : ¬st.totalSamples + 1 > Limits.sampleCount := Nat.not_lt_of_le hs
  simp only [readLine, trim_line]
  rw [if_neg hne, if_neg hl, if_neg hc, readSample_line]
  exact if_neg hs

end Row

end Row

section Comment

-- The text of a help line, in which a line cannot end.
def escapeHelp (c : Char) : List Char :=
  if c = '\\' then ['\\', '\\'] else if c = '\n' then ['\\', 'n'] else [c]

theorem unescapeText_escapeHelp : unescapeText (v.flatMap escapeHelp) = v := by
  induction v
  case nil => rfl
  case cons c v hi =>
    rw [List.flatMap_cons, escapeHelp]
    split
    case isTrue hb  =>
      subst hb
      exact congrArg ('\\' :: ·) hi
    case isFalse hb =>
      split
      case isTrue hn =>
        subst hn
        exact congrArg ('\n' :: ·) hi
      case isFalse   => rw [List.singleton_append, unescapeText_cons hb, hi]

-- What stands behind the name in a comment: nothing, or a blank and a text without blanks at its ends.
structure Tail (rest : List Char) : Prop where
  oneLine : ∀ c ∈ rest, isLineEnd c = false
  trimmed : JsString.trim (.ofList rest) = .ofList rest

def tailText (rest : List Char) : List Char :=
  if rest = [] then [] else ' ' :: rest

def commentLine (keyword name : String) (rest : List Char) : List Char :=
  '#' :: ' ' :: keyword.toList ++ ' ' :: name.toList ++ tailText rest

variable {keyword : String} {rest : List Char}

theorem Tail.head (h : Tail rest) : ∀ c ∈ rest.head?, JsString.isBlank c = false := by
  have hd := (JsString.trim_eq_self_iff.mp h.trimmed).1
  rw [String.toList_ofList, List.dropWhile_eq_self_iff] at hd
  cases rest
  case nil       => simp
  case cons d l  =>
    rintro _ ⟨⟩
    simpa using hd (Nat.succ_pos _)

theorem matchWhole_tail (h : Tail rest) : matchWhole (seq (many JsString.isBlank) <|
    group 3 <| many fun c => !isLineEnd c) (tailText rest) = some ⟨[(3, rest)], tailText rest, []⟩ := by
  have hw : Takes (many fun c => !isLineEnd c) rest [] [] :=
    takes_many (fun c hc => by simp [h.oneLine c hc]) <| by simp
  have hw := (hw.group (n := 3)).matchWhole
  rw [tailText]
  split
  case isTrue hr =>
    subst hr
    have hz : Takes (many JsString.isBlank) [] [] [] := takes_many (by simp) (by simp)
    exact hz.whole hw
  case isFalse   =>
    have hb : ∀ c ∈ [' '], JsString.isBlank c = true := List.forall_mem_singleton.mpr <| by decide
    exact (takes_many hb h.head).whole hw

theorem takes_keyword (hk : keyword = "HELP" ∨ keyword = "TYPE") :
    Takes (oneOf "HELP" ["TYPE"]) keyword.toList t [] := by
  obtain rfl | rfl := hk
  · exact (takes_literal <| by decide).alt_left
  · exact (takes_literal <| by decide).alt_right rfl

theorem matchWhole_comment (hk : keyword = "HELP" ∨ keyword = "TYPE") (hn : name.toList ∈ nameRe.lang)
    (h : Tail rest) : ∃ m, matchWhole commentRe (commentLine keyword name rest) = some m ∧
      m.get? 1 = some keyword.toList ∧ m.get? 2 = some name.toList ∧ m.get? 3 = some rest := by
  have hb : ∀ c ∈ [' '], JsString.isBlank c = true := List.forall_mem_singleton.mpr <| by decide
  have hname : ∀ c ∈ (tailText rest).head?, Metrics.isNameChar c = false := by
    rw [tailText]
    split
    · simp
    · rintro _ ⟨⟩
      decide
  have hhead : ∀ c ∈ (name.toList ++ tailText rest).head?, JsString.isBlank c = false := by
    obtain ⟨d, w, hw⟩ := List.exists_cons_of_ne_nil <| name_ne_nil hn
    rw [hw]
    rintro _ ⟨⟩
    exact isBlank_name <| isNameChar_of_mem hn <| hw ▸ .head _
  have hkey : ∀ c ∈ (keyword.toList ++ ([' '] ++ (name.toList ++ tailText rest))).head?, JsString.isBlank c = false := by
    obtain rfl | rfl := hk <;> rintro _ ⟨⟩ <;> decide
  have h₅ := (Metrics.takes_name hn hname).group (n := 2) |>.whole (matchWhole_tail h)
  have h₄ := (takes_plus (by simp) hb hhead).whole h₅
  have h₃ := (takes_keyword hk).group (n := 1) |>.whole h₄
  have h₂ := (takes_plus (by simp) hb hkey).whole h₃
  have h₁ := (takes_char (c := '#')).whole h₂
  have hl : commentLine keyword name rest =
      ['#'] ++ ([' '] ++ (keyword.toList ++ ([' '] ++ (name.toList ++ tailText rest)))) := by
    simp [commentLine]
  rw [hl]
  exact ⟨_, h₁, rfl, rfl, rfl⟩

theorem Tail.last (h : Tail rest) (hn : rest ≠ []) : JsString.isBlank (rest.getLast hn) = false := by
  have hd := (JsString.trim_eq_self_iff.mp h.trimmed).2
  rw [String.toList_ofList, List.rdropWhile_eq_self_iff] at hd
  simpa using hd hn

theorem trim_commentLine (hn : name.toList ∈ nameRe.lang) (h : Tail rest) :
    JsString.trim (.ofList <| commentLine keyword name rest) = .ofList (commentLine keyword name rest) := by
  have hh : ∀ c ∈ ['#'], JsString.isBlank c = false := List.forall_mem_singleton.mpr <| by decide
  -- The last character is one of the name or of the text behind it.
  obtain ⟨m, d, hl, hd⟩ : ∃ m d, commentLine keyword name rest = ['#'] ++ m ++ [d] ∧ JsString.isBlank d = false := by
    by_cases hr : rest = []
    · have hne := name_ne_nil hn
      refine ⟨' ' :: keyword.toList ++ ' ' :: name.toList.dropLast, name.toList.getLast hne, ?_, ?_⟩
      · rw [commentLine, tailText, if_pos hr, List.append_nil]
        conv_lhs => rw [← List.dropLast_append_getLast hne]
        simp
      · exact isBlank_name <| isNameChar_of_mem hn <| List.getLast_mem hne
    · refine ⟨' ' :: keyword.toList ++ ' ' :: name.toList ++ ' ' :: rest.dropLast, rest.getLast hr, ?_, h.last hr⟩
      rw [commentLine, tailText, if_neg hr]
      conv_lhs => rw [← List.dropLast_append_getLast hr]
      simp
  rw [hl]
  exact trim_ends (by simp) hh (by simp) <| by simpa using hd

theorem readLine_comment (hk : keyword = "HELP" ∨ keyword = "TYPE") (hn : name.toList ∈ nameRe.lang) (h : Tail rest)
    (hl : JsString.length (.ofList <| commentLine keyword name rest) ≤ Limits.lineLength) :
    readLine st (.ofList <| commentLine keyword name rest) =
      .ok (if keyword = "HELP" then st.help name rest else st.declare name rest) := by
  obtain ⟨m, hm, h₁, h₂, h₃⟩ := matchWhole_comment hk hn h
  have hl : ¬JsString.length (.ofList <| commentLine keyword name rest) > Limits.lineLength := Nat.not_lt_of_le hl
  have hne : String.ofList (commentLine keyword name rest) ≠ "" := by
    rw [← String.toList_inj.ne, String.toList_ofList]
    exact List.cons_ne_nil _ _
  have hc : JsString.startsWith (.ofList <| commentLine keyword name rest) "#" = true := by
    rw [JsString.startsWith_iff]
    exact ⟨_, String.toList_ofList.symm⟩
  simp only [readLine, trim_commentLine hn h]
  rw [if_neg hne, if_neg hl, if_pos hc, comment, String.toList_ofList, hm]
  simp only [h₁, h₂, h₃, Option.getD_some, String.ofList_toList, Option.some.injEq, String.toList_inj]

end Comment

end Exposition
