import LoxilbUi.Common.LogLine

-- What is read of a line of a log, and of which lines anything is.

namespace Common

open Pattern

-- The parts that lines are written of.
section Grammar

def Digits (n : Nat) (u : List Char) : Prop :=
  u.length = n ∧ ∀ c ∈ u, c.isDigit = true

def Blank (u : List Char) : Prop :=
  ∀ c ∈ u, JsString.isBlank c = true

def OneLine (u : List Char) : Prop :=
  ∀ c ∈ u, dot c = true

inductive Stamp (sep : Char) : List Char → Prop
  | mk {year month day hour minute second : List Char} : Digits 4 year → Digits 2 month → Digits 2 day →
    Digits 2 hour → Digits 2 minute → Digits 2 second →
    Stamp sep (year ++ sep :: (month ++ sep :: (day ++ ' ' :: (hour ++ ':' :: (minute ++ ':' :: second)))))

-- `file:line`
inductive Location : List Char → Prop
  | mk {file line : List Char} : file ≠ [] → (∀ c ∈ file, JsString.isBlank c = false ∧ c ≠ ':') → line ≠ [] →
    (∀ c ∈ line, c.isDigit = true) → Location (file ++ ':' :: line)

-- A message that does not begin with a location.
def Unlocated (m : List Char) : Prop :=
  ∀ loc r, Location loc → m.dropWhile JsString.isBlank ≠ loc ++ ':' :: r

end Grammar

section Tail

variable {u t b m r loc : List Char} {c : Char} {sep : Char}

theorem trim_blank (h : Blank m) : JsString.trim (.ofList m) = "" :=
  JsString.trim_eq_empty_iff.mpr <| by rwa [String.toList_ofList]

-- A text is blank, or it has blanks and then something else.
theorem blank_or (m : List Char) : Blank m ∨ ∃ b c r, Blank b ∧ JsString.isBlank c = false ∧ m = b ++ c :: r ∧
    m.dropWhile JsString.isBlank = c :: r := by
  cases h : m.dropWhile JsString.isBlank
  case nil      => exact .inl <| List.dropWhile_eq_nil_iff.mp h
  case cons c r =>
    refine .inr ⟨m.takeWhile JsString.isBlank, c, r, fun _ => List.mem_takeWhile_imp, ?_, ?_, rfl⟩
    · have hc := List.head?_dropWhile_not JsString.isBlank m
      rw [h] at hc
      simpa using hc
    · rw [← h, List.takeWhile_append_dropWhile]

theorem takes_stamp (h : Stamp sep u) : Takes (stamp sep) u t [] := by
  obtain ⟨hy, hm, hd, hh, hi, hs⟩ := h
  exact (takes_times hy.1 hy.2).seq <| takes_char.seq <| (takes_times hm.1 hm.2).seq <| takes_char.seq <|
    (takes_times hd.1 hd.2).seq <| takes_char.seq <| (takes_times hh.1 hh.2).seq <| takes_char.seq <|
    (takes_times hi.1 hi.2).seq <| takes_char.seq <| takes_times hs.1 hs.2

theorem takes_location (h : Location loc) :
    Takes (group 3 <| seq (plus fun c => !JsString.isBlank c && c ≠ ':') <| seq (char ':') <| plus Char.isDigit) loc
      (':' :: t) [(3, loc)] := by
  obtain ⟨hf, hc, hl, hd⟩ := h
  refine Takes.group <| (takes_plus hf (fun c hm => ?_) ?_).seq <| takes_char.seq <| takes_plus hl hd ?_
  · simp [hc c hm]
  · simp
  · simp [Char.isDigit]

theorem trim_blank_append (h : Blank b) : JsString.trim (.ofList <| b ++ m) = JsString.trim (.ofList m) := by
  rw [String.ofList_append]
  exact JsString.trim_append_left <| by rwa [String.toList_ofList]

theorem dropWhile_blank_append (h : Blank b) : (b ++ m).dropWhile JsString.isBlank = m.dropWhile JsString.isBlank :=
  List.dropWhile_append_of_pos h

-- What is left of a message behind blanks: it has no more of them in front, or is one itself.
def Left (m t : List Char) : Prop :=
  t ≠ [] ∧ OneLine t ∧ (t = m.dropWhile JsString.isBlank ∨ ∃ c, JsString.isBlank c = true ∧ t = [c])

variable {q : Pattern} {n : Nat}

-- All blanks are taken, or all but the last one if there is nothing else.
theorem matchWhole_blanks (hm : m ≠ []) (ho : OneLine m) (hn : matchWhole q [] = none)
    (hq : ∀ t, Left m t → matchWhole q t = some ⟨[(n, t)], t, []⟩) :
    ∃ f m', matchWhole (seq (many JsString.isBlank) q) m = some f ∧ f.groups = [(n, m')] ∧
      JsString.trim (.ofList m') = JsString.trim (.ofList m) := by
  obtain hb | ⟨b, c, r, hb, hc, rfl, hd⟩ := blank_or m
  case inl =>
    obtain ⟨u, c, rfl⟩ := List.eq_nil_or_concat' m |>.resolve_left hm
    have hl : c ∈ u ++ [c] := List.mem_append_right _ <| .head _
    have ht : Left (u ++ [c]) [c] := ⟨by simp, by simpa [OneLine] using ho c hl, .inr ⟨c, hb c hl, rfl⟩⟩
    refine ⟨_, [c], matchWhole_many_concat (fun d hd => hb d <| List.mem_append_left _ hd) (hb c hl) hn (hq _ ht), rfl, ?_⟩
    rw [trim_blank hb, trim_blank fun d hd => hb d <| List.mem_append_right _ hd]
  case inr =>
    have ht : Left (b ++ c :: r) (c :: r) :=
      ⟨by simp, fun d hd => ho d <| List.mem_append_right _ hd, .inl hd.symm⟩
    exact ⟨_, c :: r, (takes_many hb <| by simp [hc]).whole (hq _ ht), rfl, (trim_blank_append hb).symm⟩

theorem matchWhole_plus_blanks (hb : Blank b) (hn' : b ≠ []) (hm : m ≠ []) (ho : OneLine (b ++ m))
    (hn : matchWhole q [] = none) (hq : ∀ t, Left m t → matchWhole q t = some ⟨[(n, t)], t, []⟩) :
    ∃ f m', matchWhole (seq (plus JsString.isBlank) q) (b ++ m) = some f ∧ f.groups = [(n, m')] ∧
      JsString.trim (.ofList m') = JsString.trim (.ofList m) := by
  obtain ⟨c, b, rfl⟩ := List.exists_cons_of_ne_nil hn'
  obtain ⟨hc, hb⟩ := List.forall_mem_cons.mp hb
  obtain ⟨-, ho⟩ := List.forall_mem_cons.mp ho
  obtain ⟨f, m', hf, hg, ht⟩ := matchWhole_blanks (m := b ++ m) (by simp [hm]) ho hn fun t ht => hq t <| by
    rwa [Left, dropWhile_blank_append hb] at ht
  rw [plus, matchWhole_seq_assoc]
  exact ⟨_, m', (takes_one hc).whole hf, hg, by rw [ht, trim_blank_append hb]⟩

theorem matchWhole_message (h : Left m t) : matchWhole (group n <| plus dot) t = some ⟨[(n, t)], t, []⟩ :=
  (takes_plus h.1 h.2.1 <| by simp).group.matchWhole

theorem matchWhole_message_nil : matchWhole (group n <| plus dot) [] = none :=
  matchWhole_eq_none_iff.mpr fun h => (mem_plus.mp <| mem_group.mp h).1 rfl

theorem mem_location : u ∈ location.lang ↔ ∃ loc b, Location loc ∧ Blank b ∧ u = loc ++ ':' :: b := by
  simp only [location, mem_seq, mem_group, mem_plus, mem_char, mem_many]
  constructor
  case mp =>
    rintro ⟨_, ⟨file, ⟨hf, hc⟩, _, ⟨_, rfl, line, hl, rfl⟩, rfl⟩, _, ⟨_, rfl, b, hb, rfl⟩, rfl⟩
    exact ⟨_, b, ⟨hf, fun c hm => by simpa using hc c hm, hl.1, hl.2⟩, hb, rfl⟩
  case mpr =>
    rintro ⟨_, b, ⟨hf, hc, hl, hd⟩, hb, rfl⟩
    exact ⟨_, ⟨_, ⟨hf, fun c hm => by simpa using hc c hm⟩, _, ⟨_, rfl, _, ⟨hl, hd⟩, rfl⟩, rfl⟩, _,
      ⟨_, rfl, b, hb, rfl⟩, rfl⟩

theorem location_head (h : Location loc) : ∀ c ∈ (loc ++ t).head?, JsString.isBlank c = false := by
  obtain ⟨hf, hc, -, -⟩ := h
  obtain ⟨d, file, rfl⟩ := List.exists_cons_of_ne_nil hf
  intro c hm
  obtain rfl : d = c := by simpa using hm
  exact (hc d <| .head _).1

-- In front of a message that has no location none is matched.
theorem matchWhole_opt_location (hu : Unlocated m) (h : Left m t) :
    matchWhole (seq (opt location) <| group n <| plus dot) t = some ⟨[(n, t)], t, []⟩ := by
  have hl : matchWhole (seq location <| group n <| plus dot) t = none := by
    rw [matchWhole_eq_none_iff, mem_seq]
    rintro ⟨_, hv, w, -, rfl⟩
    obtain ⟨loc, b, hl, -, rfl⟩ := mem_location.mp hv
    obtain hd | ⟨c, hc, ht⟩ := h.2.2
    · exact hu loc (b ++ w) hl <| by rw [← hd, List.append_assoc, List.cons_append]
    · have hb := @location_head (':' :: (b ++ w)) loc hl c
      rw [List.append_assoc, List.cons_append] at ht
      rw [ht, hc] at hb
      exact Bool.noConfusion <| hb rfl
  rw [matchWhole_opt, hl, matchWhole_message h, Option.none_or]

theorem matchWhole_located (hb : Blank b) (hn : b ≠ []) (hl : Location loc) (hm : m ≠ []) (ho : OneLine m) :
    ∃ f m', matchWhole located (b ++ (loc ++ ':' :: m)) = some f ∧ f.groups = [(3, loc), (4, m')] ∧
      JsString.trim (.ofList m') = JsString.trim (.ofList m) := by
  obtain ⟨f, m', hf, hg, ht⟩ := matchWhole_blanks hm ho matchWhole_message_nil fun t => matchWhole_message (n := 4)
  have hw : matchWhole (seq (opt location) <| group 4 <| plus dot) (loc ++ ':' :: m) =
      some ⟨(3, loc) :: f.groups, loc ++ ':' :: f.taken, f.rest⟩ := by
    have hr : matchWhole (seq (seq (char ':') <| many JsString.isBlank) <| group 4 <| plus dot) (':' :: m) =
        some ⟨f.groups, ':' :: f.taken, f.rest⟩ := by
      rw [matchWhole_seq_assoc]
      exact takes_char.whole hf
    rw [matchWhole_opt, location, matchWhole_seq_assoc, (takes_location hl).whole hr]
    rfl
  exact ⟨_, m', (takes_plus hn hb <| location_head hl).whole hw, by rw [hg]; rfl, ht⟩

theorem matchWhole_no_location (hb : Blank b) (hn : b ≠ []) (hu : Unlocated m) (hm : m ≠ []) (ho : OneLine (b ++ m)) :
    ∃ f m', matchWhole located (b ++ m) = some f ∧ f.groups = [(4, m')] ∧
      JsString.trim (.ofList m') = JsString.trim (.ofList m) := by
  refine matchWhole_plus_blanks hb hn hm ho ?_ fun t => matchWhole_opt_location hu
  rw [matchWhole_opt, matchWhole_message_nil, Option.or_none, matchWhole_eq_none_iff, mem_seq]
  rintro ⟨v, -, w, hw, h⟩
  exact (mem_plus.mp <| mem_group.mp hw).1 (List.append_eq_nil_iff.mp h).2

theorem matchWhole_unlocated (hb : Blank b) (hn : b ≠ []) (hm : m ≠ []) (ho : OneLine (b ++ m)) :
    ∃ f m', matchWhole unlocated (b ++ m) = some f ∧ f.groups = [(3, m')] ∧
      JsString.trim (.ofList m') = JsString.trim (.ofList m) :=
  matchWhole_plus_blanks hb hn hm ho matchWhole_message_nil fun _ => matchWhole_message

end Tail

section Levels

def newLevels : List String :=
  ["ERR", "INFO", "WARN", "DBG", "CRITICAL"]

def legacyLevels : List String :=
  ["ERROR", "INFO", "WARNING", "DEBUG", "CRITICAL"]

def datapathLevels : List String :=
  ["ERR", "ERROR", "INFO", "WARN", "WARNING", "DBG", "DEBUG", "CRITICAL", "FATAL", "TRACE"]

-- `LEVEL:stamp` and more, with blanks `b` in front of the stamp.
def leveledLine (level : String) (b st t : List Char) : List Char :=
  level.toList ++ ':' :: (b ++ (st ++ t))

-- `stamp LEVEL` and more, with blanks `b` in front of the level.
def datapathLine (st b : List Char) (level : String) (t : List Char) : List Char :=
  st ++ (b ++ (level.toList ++ t))

variable {w v : String} {ws : List String} {b st t u : List Char} {c : Char} {sep : Char} {q : Pattern} {f : Found}

theorem isUpper_of_isBlank (h : JsString.isBlank c = true) : c.isUpper = false := by
  have hn := JsString.isBlank_bounds h
  by_contra hu
  rw [Bool.not_eq_false, JsString.isUpper_iff] at hu
  omega

theorem isUpper_of_isDigit (h : c.isDigit = true) : c.isUpper = false := by
  by_contra hu
  rw [Bool.not_eq_false, JsString.isUpper_iff] at hu
  rw [JsString.isDigit_iff] at h
  omega

theorem isWord_level (h : w ∈ datapathLevels) : IsWord Char.isUpper w := by
  have ha : datapathLevels.all fun w => w ≠ "" && w.toList.all Char.isUpper := by decide
  have hw := List.all_eq_true.mp ha w h
  simp only [Bool.and_eq_true, decide_eq_true_eq, List.all_eq_true] at hw
  exact ⟨hw.1, hw.2⟩

theorem levels_subset : ∀ w ∈ newLevels ++ legacyLevels, w ∈ datapathLevels := by
  decide

theorem stamp_head (h : Stamp sep st) : ∀ c ∈ (st ++ t).head?, c.isDigit = true := by
  obtain ⟨⟨hl, hd⟩, -, -, -, -, -⟩ := h
  obtain ⟨d, y, rfl⟩ := List.exists_cons_of_ne_nil <| List.ne_nil_of_length_eq_add_one hl
  intro c hm
  obtain rfl : d = c := by simpa using hm
  exact hd d <| .head _

theorem apart_colon : Apart Char.isUpper (seq (char ':') q) := by
  intro u hu c hc
  obtain ⟨_, hv, w, -, rfl⟩ := mem_seq.mp hu
  obtain rfl := mem_char.mp hv
  obtain rfl : ':' = c := by simpa using hc
  decide

theorem apart_blank : Apart Char.isUpper (seq (plus JsString.isBlank) q) := by
  intro u hu c hc
  obtain ⟨v, hv, w, -, rfl⟩ := mem_seq.mp hu
  obtain ⟨hn, hb⟩ := mem_plus.mp hv
  obtain ⟨d, v, rfl⟩ := List.exists_cons_of_ne_nil hn
  obtain rfl : d = c := by simpa using hc
  exact isUpper_of_isBlank <| hb d <| .head _

theorem matchWhole_leveled (hv : ∀ w ∈ v :: ws, IsWord Char.isUpper w) (hw : w ∈ v :: ws) (hb : Blank b)
    (hs : Stamp '/' st) (hf : matchWhole q t = some f) : ∃ taken, matchWhole (leveled (oneOf v ws) q) (leveledLine w b st t) =
      some ⟨(1, w.toList) :: (2, st) :: f.groups, taken, f.rest⟩ := by
  have hst := (takes_stamp (t := t) hs).group (n := 2) |>.whole hf
  have hh : ∀ c ∈ (st ++ t).head?, JsString.isBlank c = false := fun c hc =>
    JsString.not_isBlank_of_isDigit <| stamp_head hs c hc
  have hc := takes_char (c := ':') |>.whole <| (takes_many hb hh).whole hst
  have hv' := List.forall_mem_cons.mp hv
  exact ⟨_, matchWhole_oneOf (hv w hw) hv'.1 hv'.2 apart_colon (by simp) hw hc⟩

theorem matchWhole_leveled_eq_none (hv : ∀ w ∈ v :: ws, IsWord Char.isUpper w) (hw : IsWord Char.isUpper w)
    (hn : w ∉ v :: ws) : matchWhole (leveled (oneOf v ws) q) (leveledLine w b st t) = none := by
  have hv' := List.forall_mem_cons.mp hv
  exact matchWhole_oneOf_eq_none hw hv'.1 hv'.2 apart_colon (by simp) hn

-- A line that begins with a stamp begins with no level.
theorem matchWhole_leveled_stamp (hv : ∀ w ∈ v :: ws, IsWord Char.isUpper w) (hs : Stamp sep st) :
    matchWhole (leveled (oneOf v ws) q) (st ++ t) = none := by
  have hn : v ≠ "" := (hv v <| .head _).nonempty
  have hns : "" ∉ ws := fun h => (hv "" <| .tail _ h).nonempty rfl
  rw [leveled, matchWhole_eq_none_iff, mem_seq]
  rintro ⟨u, hu, r, -, he⟩
  obtain ⟨w, hw, rfl⟩ := (mem_oneOf hn hns).mp <| mem_group.mp hu
  obtain ⟨c, l, hl⟩ := List.exists_cons_of_ne_nil <| String.toList_eq_nil_iff.not.mpr (hv w hw).nonempty
  have hc : c.isUpper = true := (hv w hw).all c <| hl ▸ .head _
  have hd : c.isDigit = true := stamp_head hs c <| by rw [← he, hl]; rfl
  rw [isUpper_of_isDigit hd] at hc
  cases hc

theorem matchWhole_datapath (hw : w ∈ datapathLevels) (hb : Blank b) (hn : b ≠ []) (hs : Stamp '-' st)
    (hf : matchWhole located t = some f) : ∃ taken, matchWhole datapathRegex (datapathLine st b w t) =
      some ⟨(1, st) :: (2, w.toList) :: f.groups, taken, f.rest⟩ := by
  have hv := isWord_level hw
  have ha : Apart Char.isUpper located := apart_blank
  have ht : ∀ c ∈ t.head?, c.isUpper = false := ha t <| matchWhole_isSome_iff.mp <| by rw [hf]; rfl
  have hl := matchWhole_oneOf (n := 2) hv (isWord_level <| .head _) (fun v hv => isWord_level <| .tail _ hv)
    ha ht hw hf
  have hh : ∀ c ∈ (w.toList ++ t).head?, JsString.isBlank c = false := by
    obtain ⟨d, l, hd⟩ := List.exists_cons_of_ne_nil <| String.toList_eq_nil_iff.not.mpr hv.nonempty
    rw [hd]
    intro c hc
    obtain rfl : d = c := by simpa using hc
    have hu : d.isUpper = true := hv.all d <| hd ▸ .head _
    by_contra hb
    rw [isUpper_of_isBlank <| Bool.not_eq_false _ |>.mp hb] at hu
    cases hu
  exact ⟨_, (takes_stamp hs).group.whole <| (takes_plus hn hb hh).whole hl⟩

end Levels

-- The timestamp, the program and the message that are read of a line, up to blanks around the message.
def Reads (line timestamp programname message : List Char) : Prop :=
  ∃ log, parseLogLine (.ofList line) = some log ∧ log.timestamp = .ofList timestamp ∧
    log.programname = .ofList programname ∧ JsString.trim log.message = JsString.trim (.ofList message)

section Reads

variable {w : String} {b b' st m loc l : List Char} {f : Found}

theorem newLevels_words : ∀ w ∈ newLevels, IsWord Char.isUpper w :=
  fun w hw => isWord_level <| levels_subset w <| List.mem_append_left _ hw

theorem legacyLevels_words : ∀ w ∈ legacyLevels, IsWord Char.isUpper w :=
  fun w hw => isWord_level <| levels_subset w <| List.mem_append_right _ hw

theorem location_not_blank (h : Location loc) : ∀ c ∈ loc, JsString.isBlank c = false := by
  obtain ⟨-, hc, -, hd⟩ := h
  intro c hm
  obtain hm | hm := List.mem_append.mp hm
  · exact (hc c hm).1
  · obtain rfl | hm := List.mem_cons.mp hm
    · decide
    · exact JsString.not_isBlank_of_isDigit <| hd c hm

theorem location_trim (h : Location loc) : JsString.trim (.ofList loc) = .ofList loc :=
  JsString.trim_of_no_blank <| by
    rw [String.toList_ofList]
    exact location_not_blank h

theorem location_splitHead (h : Location loc) : JsString.splitHead (JsString.trim <| .ofList loc) ' ' = .ofList loc := by
  refine String.toList_inj.mp ?_
  rw [location_trim h, JsString.splitHead_toList, String.toList_ofList, List.takeWhile_eq_self_iff]
  rintro c hc
  have hb := location_not_blank h c hc
  rw [decide_eq_true_eq]
  rintro rfl
  cases hb

theorem parseLogLine_new (h : newApiRegex.matchWhole l = some f) : parseLogLine (.ofList l) = some (newApiLog f) := by
  rw [parseLogLine, String.toList_ofList, h]

theorem parseLogLine_legacy (hn : newApiRegex.matchWhole l = none) (h : legacyRegex.matchWhole l = some f) :
    parseLogLine (.ofList l) = some (legacyLog f) := by
  rw [parseLogLine, String.toList_ofList, hn, h]

theorem parseLogLine_datapath (hn : newApiRegex.matchWhole l = none) (hl : legacyRegex.matchWhole l = none) :
    parseLogLine (.ofList l) = (datapathRegex.matchWhole l).map datapathLog := by
  rw [parseLogLine, String.toList_ofList, hn, hl]

-- A level of the lines of the present gateway: the whole rest of the line is the message.
theorem reads_new (hw : w ∈ newLevels) (hb : Blank b) (hs : Stamp '/' st) (hb' : Blank b') (hn : b' ≠ []) (hm : m ≠ [])
    (ho : OneLine (b' ++ m)) : Reads (leveledLine w b st (b' ++ m)) st [] m := by
  obtain ⟨f, m', hf, hg, ht⟩ := matchWhole_unlocated hb' hn hm ho
  obtain ⟨taken, hf⟩ := matchWhole_leveled newLevels_words hw hb hs hf
  rw [hg] at hf
  refine ⟨_, parseLogLine_new hf, rfl, rfl, ?_⟩
  rw [newApiLog, JsString.trim_trim]
  exact ht

theorem newApi_eq_none (hw : w ∈ legacyLevels) (hn : w ∉ newLevels) {t : List Char} :
    newApiRegex.matchWhole (leveledLine w b st t) = none :=
  matchWhole_leveled_eq_none newLevels_words (legacyLevels_words w hw) hn

theorem reads_legacy (hw : w ∈ legacyLevels) (hnew : w ∉ newLevels) (hb : Blank b) (hs : Stamp '/' st) (hb' : Blank b')
    (hn : b' ≠ []) (hl : Location loc) (hm : m ≠ []) (ho : OneLine m) :
    Reads (leveledLine w b st (b' ++ (loc ++ ':' :: m))) st loc m := by
  obtain ⟨f, m', hf, hg, ht⟩ := matchWhole_located hb' hn hl hm ho
  obtain ⟨taken, hf⟩ := matchWhole_leveled legacyLevels_words hw hb hs hf
  rw [hg] at hf
  exact ⟨_, parseLogLine_legacy (newApi_eq_none hw hnew) hf, rfl, location_splitHead hl, ht⟩

theorem reads_legacy_unlocated (hw : w ∈ legacyLevels) (hnew : w ∉ newLevels) (hb : Blank b) (hs : Stamp '/' st)
    (hb' : Blank b') (hn : b' ≠ []) (hu : Unlocated m) (hm : m ≠ []) (ho : OneLine (b' ++ m)) :
    Reads (leveledLine w b st (b' ++ m)) st [] m := by
  obtain ⟨f, m', hf, hg, ht⟩ := matchWhole_no_location hb' hn hu hm ho
  obtain ⟨taken, hf⟩ := matchWhole_leveled legacyLevels_words hw hb hs hf
  rw [hg] at hf
  have he : JsString.splitHead (JsString.trim "") ' ' = "" := by decide
  exact ⟨_, parseLogLine_legacy (newApi_eq_none hw hnew) hf, rfl, he, ht⟩

theorem parseLogLine_stamp {t : List Char} (hs : Stamp '-' st) (h : datapathRegex.matchWhole (st ++ t) = some f) :
    parseLogLine (.ofList <| st ++ t) = some (datapathLog f) := by
  rw [parseLogLine_datapath (matchWhole_leveled_stamp newLevels_words hs) (matchWhole_leveled_stamp legacyLevels_words hs),
    h, Option.map_some]

theorem reads_datapath (hw : w ∈ datapathLevels) (hb : Blank b) (hn : b ≠ []) (hs : Stamp '-' st) (hb' : Blank b')
    (hn' : b' ≠ []) (hl : Location loc) (hm : m ≠ []) (ho : OneLine m) :
    Reads (datapathLine st b w (b' ++ (loc ++ ':' :: m))) st loc m := by
  obtain ⟨f, m', hf, hg, ht⟩ := matchWhole_located hb' hn' hl hm ho
  obtain ⟨taken, hf⟩ := matchWhole_datapath hw hb hn hs hf
  rw [hg] at hf
  refine ⟨_, parseLogLine_stamp hs hf, rfl, location_trim hl, ?_⟩
  rw [datapathLog, JsString.trim_trim]
  exact ht

theorem reads_datapath_unlocated (hw : w ∈ datapathLevels) (hb : Blank b) (hn : b ≠ []) (hs : Stamp '-' st)
    (hb' : Blank b') (hn' : b' ≠ []) (hu : Unlocated m) (hm : m ≠ []) (ho : OneLine (b' ++ m)) :
    Reads (datapathLine st b w (b' ++ m)) st [] m := by
  obtain ⟨f, m', hf, hg, ht⟩ := matchWhole_no_location hb' hn' hu hm ho
  obtain ⟨taken, hf⟩ := matchWhole_datapath hw hb hn hs hf
  rw [hg] at hf
  refine ⟨_, parseLogLine_stamp hs hf, rfl, JsString.trim_empty, ?_⟩
  rw [datapathLog, JsString.trim_trim]
  exact ht

end Reads

-- The three formats, of which the second and the third may have a location in front of the message.
section Formats

variable {w v : String} {ws : List String} {u l t : List Char} {sep : Char} {q : Pattern} {line : String}

def Prefix (p : List Char) : Prop :=
  p = [] ∨ ∃ loc b, Location loc ∧ Blank b ∧ p = loc ++ ':' :: b

-- Blanks and a message.
def Message (t : List Char) : Prop :=
  ∃ b m, b ≠ [] ∧ Blank b ∧ m ≠ [] ∧ OneLine m ∧ t = b ++ m

-- Blanks and a message that may have a location.
def LocatedMessage (t : List Char) : Prop :=
  ∃ b p m, b ≠ [] ∧ Blank b ∧ Prefix p ∧ m ≠ [] ∧ OneLine m ∧ t = b ++ (p ++ m)

inductive InFormat : List Char → Prop
  | newApi {w b st t} : w ∈ newLevels → Blank b → Stamp '/' st → Message t → InFormat (leveledLine w b st t)
  | legacy {w b st t} : w ∈ legacyLevels → Blank b → Stamp '/' st → LocatedMessage t → InFormat (leveledLine w b st t)
  | datapath {st b w t} : Stamp '-' st → b ≠ [] → Blank b → w ∈ datapathLevels → LocatedMessage t →
    InFormat (datapathLine st b w t)

theorem mem_stamp : u ∈ (stamp sep).lang ↔ Stamp sep u := by
  simp only [stamp, mem_seq, mem_times, mem_char]
  constructor
  case mp =>
    rintro ⟨_, hy, _, ⟨_, rfl, _, ⟨_, hm, _, ⟨_, rfl, _, ⟨_, hd, _, ⟨_, rfl, _, ⟨_, hh, _, ⟨_, rfl, _, ⟨_, hi, _,
      ⟨_, rfl, _, hs, rfl⟩, rfl⟩, rfl⟩, rfl⟩, rfl⟩, rfl⟩, rfl⟩, rfl⟩, rfl⟩, rfl⟩
    exact .mk hy hm hd hh hi hs
  case mpr =>
    rintro ⟨hy, hm, hd, hh, hi, hs⟩
    exact ⟨_, hy, _, ⟨_, rfl, _, ⟨_, hm, _, ⟨_, rfl, _, ⟨_, hd, _, ⟨_, rfl, _, ⟨_, hh, _, ⟨_, rfl, _, ⟨_, hi, _,
      ⟨_, rfl, _, hs, rfl⟩, rfl⟩, rfl⟩, rfl⟩, rfl⟩, rfl⟩, rfl⟩, rfl⟩, rfl⟩, rfl⟩

theorem mem_unlocated : t ∈ unlocated.lang ↔ Message t := by
  simp only [unlocated, mem_seq, mem_group, mem_plus]
  constructor
  case mp =>
    rintro ⟨b, ⟨hn, hb⟩, m, ⟨hm, ho⟩, rfl⟩
    exact ⟨b, m, hn, hb, hm, ho, rfl⟩
  case mpr =>
    rintro ⟨b, m, hn, hb, hm, ho, rfl⟩
    exact ⟨b, ⟨hn, hb⟩, m, ⟨hm, ho⟩, rfl⟩

theorem mem_located : t ∈ located.lang ↔ LocatedMessage t := by
  simp only [located, mem_seq, mem_group, mem_plus, mem_opt, mem_location]
  constructor
  case mp =>
    rintro ⟨b, ⟨hn, hb⟩, _, ⟨p, hp, m, ⟨hm, ho⟩, rfl⟩, rfl⟩
    exact ⟨b, p, m, hn, hb, hp, hm, ho, rfl⟩
  case mpr =>
    rintro ⟨b, p, m, hn, hb, hp, hm, ho, rfl⟩
    exact ⟨b, ⟨hn, hb⟩, _, ⟨p, hp, m, ⟨hm, ho⟩, rfl⟩, rfl⟩

theorem mem_leveled (hv : ∀ w ∈ v :: ws, IsWord Char.isUpper w) : u ∈ (leveled (oneOf v ws) q).lang ↔
    ∃ w ∈ v :: ws, ∃ b st t, Blank b ∧ Stamp '/' st ∧ t ∈ q.lang ∧ u = leveledLine w b st t := by
  have hn : v ≠ "" := (hv v <| .head _).nonempty
  have hns : "" ∉ ws := fun h => (hv "" <| .tail _ h).nonempty rfl
  simp only [leveled, mem_seq, mem_group, mem_oneOf hn hns, mem_char, mem_many, mem_stamp]
  constructor
  case mp =>
    rintro ⟨_, ⟨w, hw, rfl⟩, _, ⟨_, rfl, _, ⟨b, hb, _, ⟨st, hs, t, ht, rfl⟩, rfl⟩, rfl⟩, rfl⟩
    exact ⟨w, hw, b, st, t, hb, hs, ht, rfl⟩
  case mpr =>
    rintro ⟨w, hw, b, st, t, hb, hs, ht, rfl⟩
    exact ⟨_, ⟨w, hw, rfl⟩, _, ⟨_, rfl, _, ⟨b, hb, _, ⟨st, hs, t, ht, rfl⟩, rfl⟩, rfl⟩, rfl⟩

theorem mem_datapath : u ∈ datapathRegex.lang ↔
    ∃ st b w t, Stamp '-' st ∧ b ≠ [] ∧ Blank b ∧ w ∈ datapathLevels ∧ LocatedMessage t ∧ u = datapathLine st b w t := by
  have hw {u : List Char} := mem_oneOf (u := u) (by decide : "ERR" ≠ "") (by decide : "" ∉ datapathLevels.tail)
  simp only [datapathRegex, mem_seq, mem_group, mem_stamp, mem_plus, mem_located]
  constructor
  case mp =>
    rintro ⟨st, hs, _, ⟨b, ⟨hn, hb⟩, _, ⟨_, hl, t, ht, rfl⟩, rfl⟩, rfl⟩
    obtain ⟨w, hm, rfl⟩ := hw.mp hl
    exact ⟨st, b, w, t, hs, hn, hb, hm, ht, rfl⟩
  case mpr =>
    rintro ⟨st, b, w, t, hs, hn, hb, hm, ht, rfl⟩
    exact ⟨st, hs, _, ⟨b, ⟨hn, hb⟩, _, ⟨_, hw.mpr ⟨w, hm, rfl⟩, t, ht, rfl⟩, rfl⟩, rfl⟩

theorem inFormat_iff : InFormat l ↔ l ∈ newApiRegex.lang ∨ l ∈ legacyRegex.lang ∨ l ∈ datapathRegex.lang := by
  have hnew : l ∈ newApiRegex.lang ↔ _ := mem_leveled newLevels_words
  have hleg : l ∈ legacyRegex.lang ↔ _ := mem_leveled legacyLevels_words
  rw [hnew, hleg, mem_datapath]
  simp only [mem_unlocated, mem_located]
  constructor
  case mp =>
    intro h
    cases h
    case newApi hw hb hs ht      => exact .inl ⟨_, hw, _, _, _, hb, hs, ht, rfl⟩
    case legacy hw hb hs ht      => exact .inr <| .inl ⟨_, hw, _, _, _, hb, hs, ht, rfl⟩
    case datapath hs hn hb hw ht => exact .inr <| .inr ⟨_, _, _, _, hs, hn, hb, hw, ht, rfl⟩
  case mpr =>
    rintro (⟨w, hw, b, st, t, hb, hs, ht, rfl⟩ | ⟨w, hw, b, st, t, hb, hs, ht, rfl⟩ | ⟨st, b, w, t, hs, hn, hb, hw, ht, rfl⟩)
    · exact .newApi hw hb hs ht
    · exact .legacy hw hb hs ht
    · exact .datapath hs hn hb hw ht

theorem isSome_parseLogLine : (parseLogLine line).isSome = true ↔ InFormat line.toList := by
  rw [inFormat_iff, ← matchWhole_isSome_iff, ← matchWhole_isSome_iff, ← matchWhole_isSome_iff, parseLogLine]
  cases newApiRegex.matchWhole line.toList
  case some => simp
  case none =>
    cases legacyRegex.matchWhole line.toList
    case some => simp
    case none => simp

theorem foldl_filterMap {α β : Type*} {g : α → Option β} {xs : List α} {acc : List β} :
    xs.foldl (fun acc x => match g x with
      | some y => acc ++ [y]
      | none   => acc) acc = acc ++ xs.filterMap g := by
  induction xs generalizing acc
  case nil          => simp
  case cons x xs hi =>
    rw [List.foldl_cons, hi, List.filterMap_cons]
    cases g x <;> simp

-- The lines of a format are kept in order, each with its place.
theorem parseLogLines_eq (lines : List String) : parseLogLines lines =
    lines.zipIdx.filterMap fun (line, idx) => (parseLogLine line).map fun log => { log with id := idx } := by
  rw [← List.nil_append (List.filterMap _ _), ← foldl_filterMap, parseLogLines]
  congr 1
  funext acc (line, idx)
  dsimp only
  cases parseLogLine line <;> rfl

end Formats

-- The blanks and the stamp in front of the rest of a line.
structure Front (sep : Char) (b st b' : List Char) : Prop where
  blank  : Blank b
  stamp  : Stamp sep st
  behind : Blank b'
  some   : b' ≠ []

-- A line of the format before, with a location.
def LegacyAt (w : String) (st loc m l : List Char) : Prop :=
  ∃ b b', Front '/' b st b' ∧ Location loc ∧ m ≠ [] ∧ OneLine (b' ++ (loc ++ ':' :: m)) ∧
    l = leveledLine w b st (b' ++ (loc ++ ':' :: m))

def DatapathAt (w : String) (st loc m l : List Char) : Prop :=
  ∃ b b', b ≠ [] ∧ Front '-' b st b' ∧ Location loc ∧ m ≠ [] ∧ OneLine (b' ++ (loc ++ ':' :: m)) ∧
    l = datapathLine st b w (b' ++ (loc ++ ':' :: m))

-- A line that starts with its level and has no location.
def LeveledAlone (w : String) (st m l : List Char) : Prop :=
  ∃ b b', Front '/' b st b' ∧ Unlocated m ∧ m ≠ [] ∧ OneLine (b' ++ m) ∧ l = leveledLine w b st (b' ++ m)

def DatapathAlone (w : String) (st m l : List Char) : Prop :=
  ∃ b b', b ≠ [] ∧ Front '-' b st b' ∧ Unlocated m ∧ m ≠ [] ∧ OneLine (b' ++ m) ∧ l = datapathLine st b w (b' ++ m)

-- What is asked of lines: each is read as it was written, and those of a format are kept, each with its place.
structure LogLines (lines : List String) : Prop where
  legacy    : ∀ line ∈ lines, ∀ w ∈ legacyLevels, ∀ st loc m,
    LegacyAt w st loc m line.toList → Reads line.toList st loc m
  datapath  : ∀ line ∈ lines, ∀ w ∈ datapathLevels, ∀ st loc m,
    DatapathAt w st loc m line.toList → Reads line.toList st loc m
  unlocated : ∀ line ∈ lines, ∀ w ∈ newLevels ++ legacyLevels, ∀ st m,
    LeveledAlone w st m line.toList → Reads line.toList st [] m
  datapathUnlocated : ∀ line ∈ lines, ∀ w ∈ datapathLevels, ∀ st m,
    DatapathAlone w st m line.toList → Reads line.toList st [] m
  parsed    : parseLogLines lines =
    lines.zipIdx.filterMap fun (line, idx) => (parseLogLine line).map fun log => { log with id := idx }
  kept      : ∀ line ∈ lines, (parseLogLine line).isSome = true ↔ InFormat line.toList

section Forms

variable {w : String} {st loc m l : List Char}

theorem reads_of_legacyAt (hw : w ∈ legacyLevels) (hn : w ∉ newLevels) (h : LegacyAt w st loc m l) : Reads l st loc m := by
  obtain ⟨b, b', hf, hl, hm, ho, rfl⟩ := h
  refine reads_legacy hw hn hf.blank hf.stamp hf.behind hf.some hl hm fun c hc => ho c ?_
  exact List.mem_append_right _ <| List.mem_append_right _ <| .tail _ hc

-- The present gateway has the level too, and its lines have no location.
theorem not_reads_of_legacyAt (hw : w ∈ newLevels) (h : LegacyAt w st loc m l) : ¬Reads l st loc m := by
  obtain ⟨b, b', hf, hl, hm, ho, rfl⟩ := h
  rintro ⟨log, hp, -, hg, -⟩
  have hloc : loc ≠ [] := by
    obtain ⟨hf, -, -, -⟩ := hl
    simp [hf]
  obtain ⟨log', hp', -, hg', -⟩ := reads_new hw hf.blank hf.stamp hf.behind hf.some (by simp) ho
  obtain rfl := Option.some.inj <| hp.symm.trans hp'
  exact hloc <| String.ofList_injective <| hg.symm.trans hg'

theorem reads_of_datapathAt (hw : w ∈ datapathLevels) (h : DatapathAt w st loc m l) : Reads l st loc m := by
  obtain ⟨b, b', hn, hf, hl, hm, ho, rfl⟩ := h
  refine reads_datapath hw hf.blank hn hf.stamp hf.behind hf.some hl hm fun c hc => ho c ?_
  exact List.mem_append_right _ <| List.mem_append_right _ <| .tail _ hc

theorem reads_of_leveledAlone (hw : w ∈ newLevels ++ legacyLevels) (h : LeveledAlone w st m l) : Reads l st [] m := by
  obtain ⟨b, b', hf, hu, hm, ho, rfl⟩ := h
  by_cases hn : w ∈ newLevels
  · exact reads_new hn hf.blank hf.stamp hf.behind hf.some hm ho
  · have hw := (List.mem_append.mp hw).resolve_left hn
    exact reads_legacy_unlocated hw hn hf.blank hf.stamp hf.behind hf.some hu hm ho

theorem reads_of_datapathAlone (hw : w ∈ datapathLevels) (h : DatapathAlone w st m l) : Reads l st [] m := by
  obtain ⟨b, b', hn, hf, hu, hm, ho, rfl⟩ := h
  exact reads_datapath_unlocated hw hf.blank hn hf.stamp hf.behind hf.some hu hm ho

theorem not_mem_newLevels_iff : ∀ w ∈ legacyLevels, w ∉ newLevels ↔ w ∈ ["ERROR", "WARNING", "DEBUG"] := by
  decide

end Forms

-- A line with a location is read as one of the present gateway, which has none, where it has a level of both.
theorem logLines_iff (lines : List String) : LogLines lines ↔
    ∀ line ∈ lines, ∀ w ∈ legacyLevels, ∀ st loc m, LegacyAt w st loc m line.toList → w ∈ ["ERROR", "WARNING", "DEBUG"] := by
  constructor
  case mp =>
    intro h line hx w hw st loc m hl
    refine (not_mem_newLevels_iff w hw).mp fun hn => ?_
    exact not_reads_of_legacyAt hn hl <| h.legacy line hx w hw st loc m hl
  case mpr =>
    intro h
    exact {
      legacy            := fun line hx w hw st loc m hl =>
        reads_of_legacyAt hw ((not_mem_newLevels_iff w hw).mpr <| h line hx w hw st loc m hl) hl
      datapath          := fun _ _ _ hw _ _ _ => reads_of_datapathAt hw
      unlocated         := fun _ _ _ hw _ _ => reads_of_leveledAlone hw
      datapathUnlocated := fun _ _ _ hw _ _ => reads_of_datapathAlone hw
      parsed            := parseLogLines_eq lines
      kept              := fun _ _ => isSome_parseLogLine
    }

section Instances

-- What is behind the location of a line `LEVEL: 2025/05/25 07:23:58 logging.go:51: Reconnection failed`.
def reconnection : List Char :=
  " Reconnection failed".toList

def loggingGo : List Char :=
  "logging.go:51".toList

theorem reconnection_front : Front '/' [' '] "2025/05/25 07:23:58".toList [' '] where
  blank  := by simp [Blank]; decide
  stamp  := mem_stamp.mp <| matchWhole_isSome_iff.mp <| by decide
  behind := by simp [Blank]; decide
  some   := by simp

theorem loggingGo_location : Location loggingGo := by
  have hf : "logging.go".toList.all fun c => !JsString.isBlank c && c ≠ ':' := by decide
  have hd : "51".toList.all Char.isDigit := by decide
  refine @Location.mk "logging.go".toList "51".toList (by decide) (fun c hc => ?_) (by decide) (List.all_eq_true.mp hd)
  simpa using List.all_eq_true.mp hf c hc

theorem reconnection_oneLine : OneLine ([' '] ++ (loggingGo ++ ':' :: reconnection)) := by
  have ho : ([' '] ++ (loggingGo ++ ':' :: reconnection)).all dot := by decide
  exact List.all_eq_true.mp ho

theorem reconnection_legacyAt (w : String) : LegacyAt w "2025/05/25 07:23:58".toList loggingGo reconnection
    (leveledLine w [' '] "2025/05/25 07:23:58".toList ([' '] ++ (loggingGo ++ ':' :: reconnection))) :=
  ⟨_, _, reconnection_front, loggingGo_location, by decide, reconnection_oneLine, rfl⟩

-- The line has the level `INFO` of both formats.
theorem not_logLines : ¬LogLines ["INFO: 2025/05/25 07:23:58 logging.go:51: Reconnection failed"] := by
  intro h
  have hat := reconnection_legacyAt "INFO"
  exact not_reads_of_legacyAt (by decide) hat <| h.legacy _ (.head _) "INFO" (by decide) _ _ _ hat

end Instances

end Common
