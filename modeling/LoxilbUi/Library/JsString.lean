import Mathlib.Algebra.Ring.Nat
import Mathlib.Data.List.DropRight
import Mathlib.Data.List.Infix

-- The string operations of the language that the models use, on the characters of the string.

namespace JsString

def includes (s t : String) : Bool :=
  t.toList <:+: s.toList

def startsWith (s t : String) : Bool :=
  t.toList.isPrefixOf s.toList

def endsWith (s t : String) : Bool :=
  t.toList.isSuffixOf s.toList

-- `s.slice(n)`
def slice (s : String) (n : Nat) : String :=
  .ofList <| s.toList.drop n

-- `s.split(c)[0]`
def splitHead (s : String) (c : Char) : String :=
  .ofList <| s.toList.takeWhile (· ≠ c)

-- In code units.
def length (s : String) : Nat :=
  (s.toList.map fun c => if c.val < 0x10000 then 1 else 2).sum

-- What `charCodeAt` reads, place by place.
def codeUnits (s : String) : List Nat :=
  s.toList.flatMap fun c =>
    if c.toNat < 0x10000 then [c.toNat]
    else [0xD800 + (c.toNat - 0x10000) / 0x400, 0xDC00 + (c.toNat - 0x10000) % 0x400]

-- Blanks and line ends, as `trim` knows them.
def isBlank (c : Char) : Bool :=
  c.val ∈ [0x9, 0xA, 0xB, 0xC, 0xD, 0x20, 0xA0, 0x1680, 0x2000, 0x2001, 0x2002, 0x2003, 0x2004,
    0x2005, 0x2006, 0x2007, 0x2008, 0x2009, 0x200A, 0x2028, 0x2029, 0x202F, 0x205F, 0x3000, 0xFEFF]

theorem isBlank_bounds {c : Char} (h : isBlank c = true) : c.toNat ≤ 32 ∨ 160 ≤ c.toNat := by
  let apart (v : UInt32) : Bool := v.toNat ≤ 32 || 160 ≤ v.toNat
  have ha : apart c.val = true := List.all_eq_true.mp (by decide) c.val <| of_decide_eq_true h
  simpa [apart] using ha

section Ascii

variable {c : Char}

theorem isDigit_iff : c.isDigit = true ↔ 48 ≤ c.toNat ∧ c.toNat ≤ 57 :=
  Bool.and_eq_true_iff.trans <| and_congr decide_eq_true_iff decide_eq_true_iff

theorem isUpper_iff : c.isUpper = true ↔ 65 ≤ c.toNat ∧ c.toNat ≤ 90 :=
  decide_eq_true_iff

theorem isLower_iff : c.isLower = true ↔ 97 ≤ c.toNat ∧ c.toNat ≤ 122 :=
  Bool.and_eq_true_iff.trans <| and_congr decide_eq_true_iff decide_eq_true_iff

theorem isAlphanum_iff : c.isAlphanum = true ↔ (c.isUpper = true ∨ c.isLower = true) ∨ c.isDigit = true :=
  Bool.or_eq_true_iff.trans <| or_congr_left Bool.or_eq_true_iff

theorem isAlphanum_bounds (h : c.isAlphanum = true) : 48 ≤ c.toNat ∧ c.toNat ≤ 122 := by
  rw [isAlphanum_iff, isUpper_iff, isLower_iff, isDigit_iff] at h
  omega

theorem not_isBlank_of_isDigit (h : c.isDigit = true) : isBlank c = false := by
  cases hb : isBlank c
  case false => rfl
  case true  =>
    have hn := isBlank_bounds hb
    rw [isDigit_iff] at h
    omega

end Ascii

def trim (s : String) : String :=
  .ofList <| (((s.toList.dropWhile isBlank).reverse).dropWhile isBlank).reverse

theorem trim_toList {s : String} :
    (trim s).toList = (s.toList.dropWhile isBlank).rdropWhile isBlank := by
  simp [trim, List.rdropWhile]

theorem trim_trim {s : String} : trim (trim s) = trim s := by
  refine String.toList_inj.mp ?_
  rw [trim_toList, trim_toList]
  have hm := List.dropWhile_idempotent isBlank s.toList
  generalize s.toList.dropWhile isBlank = m at hm
  have ht : (m.rdropWhile isBlank).dropWhile isBlank = m.rdropWhile isBlank := by
    refine List.dropWhile_eq_self_iff.mpr fun hl => ?_
    rw [(List.rdropWhile_prefix isBlank m).getElem hl]
    exact List.dropWhile_eq_self_iff.mp hm _
  rw [ht, List.rdropWhile_idempotent]

theorem trim_empty : trim "" = "" := by
  decide

theorem trim_of_no_blank {t : String} (h : ∀ c ∈ t.toList, isBlank c = false) : trim t = t := by
  refine String.toList_inj.mp ?_
  rw [trim_toList, List.dropWhile_eq_self_iff.mpr fun hl => ?_,
    List.rdropWhile_eq_self_iff.mpr fun hl => ?_]
  · exact fun hb => Bool.noConfusion <| hb.symm.trans <| h _ <| List.getLast_mem _
  · exact fun hb => Bool.noConfusion <| hb.symm.trans <| h _ <| List.getElem_mem _

theorem trim_eq_self_iff {s : String} : trim s = s ↔
    s.toList.dropWhile isBlank = s.toList ∧ s.toList.rdropWhile isBlank = s.toList := by
  rw [← String.toList_inj, trim_toList]
  constructor
  case mp =>
    intro h
    have hl := (List.rdropWhile_prefix isBlank <| s.toList.dropWhile isBlank).length_le
    have hd := (List.dropWhile_sublist isBlank (l := s.toList)).eq_of_length_le <| by rwa [h] at hl
    exact ⟨hd, by rwa [hd] at h⟩
  case mpr =>
    rintro ⟨hd, hr⟩
    rw [hd, hr]

-- Trimmed texts that are put together have nothing more to trim.
theorem trim_append {s t : String} (hs : trim s = s) (ht : trim t = t) (hn : s ≠ "") (hn' : t ≠ "") :
    trim (s ++ t) = s ++ t := by
  have hn : s.toList ≠ [] := by simpa using hn
  have hn' : t.toList ≠ [] := by simpa using hn'
  obtain ⟨hs, -⟩ := trim_eq_self_iff.mp hs
  obtain ⟨-, ht⟩ := trim_eq_self_iff.mp ht
  rw [trim_eq_self_iff, String.toList_append, List.dropWhile_eq_self_iff, List.rdropWhile_eq_self_iff]
  constructor
  case left =>
    intro hl
    rw [List.getElem_append_left <| List.length_pos_iff.mpr hn]
    exact List.dropWhile_eq_self_iff.mp hs _
  case right =>
    intro hl
    rw [List.getLast_append_of_ne_nil _ hn']
    exact List.rdropWhile_eq_self_iff.mp ht hn'

theorem mem_of_mem_trim {s : String} {c : Char} (h : c ∈ (trim s).toList) : c ∈ s.toList := by
  rw [trim_toList] at h
  exact (List.dropWhile_sublist _).mem <| (List.rdropWhile_prefix _ _).sublist.mem h

theorem trim_eq_empty_iff {s : String} : trim s = "" ↔ ∀ c ∈ s.toList, isBlank c = true := by
  rw [← String.toList_eq_nil_iff, trim_toList, List.rdropWhile_eq_nil_iff]
  constructor
  case mp =>
    intro h c hc
    rw [← List.takeWhile_append_dropWhile (p := isBlank) (l := s.toList), List.mem_append] at hc
    exact hc.elim List.mem_takeWhile_imp (h c)
  case mpr => exact fun h c hc => h c <| (List.dropWhile_sublist _).mem hc

theorem trim_append_left {s t : String} (h : ∀ c ∈ t.toList, isBlank c = true) :
    trim (t ++ s) = trim s := by
  refine String.toList_inj.mp ?_
  rw [trim_toList, trim_toList, String.toList_append, List.dropWhile_append_of_pos h]

-- `s.split(c)`
def split (s : String) (c : Char) : List String :=
  (s.toList.splitOn c).map .ofList

theorem not_mem_of_mem_splitOn {l p : List Char} {c : Char} (h : p ∈ l.splitOn c) : c ∉ p := by
  induction l generalizing p
  case nil => simp_all
  case cons x l hi =>
    rw [List.splitOn_cons_eq_if_modifyHead] at h
    split at h
    case isTrue =>
      obtain rfl | h := List.mem_cons.mp h
      · exact List.not_mem_nil
      · exact hi h
    case isFalse hx =>
      cases hs : l.splitOn c
      case nil => simp [hs] at h
      case cons q qs =>
        rw [hs, List.modifyHead_cons] at h
        obtain rfl | h := List.mem_cons.mp h
        · have hq : c ∉ q := hi <| by simp [hs]
          exact fun hm => (List.mem_cons.mp hm).elim (fun h => hx <| by simp [h]) hq
        · exact hi <| by simp [hs, h]

theorem not_mem_of_mem_split {s t : String} {c : Char} (h : t ∈ split s c) : c ∉ t.toList := by
  obtain ⟨p, hp, rfl⟩ := List.mem_map.mp h
  simpa using not_mem_of_mem_splitOn hp

theorem not_mem_intercalate {c sep : Char} {l : List (List Char)} (hc : c ≠ sep)
    (h : ∀ ds ∈ l, c ∉ ds) : c ∉ [sep].intercalate l := by
  induction l
  case nil => simp
  case cons ds l hi =>
    obtain ⟨hd, hl⟩ := List.forall_mem_cons.mp h
    cases l
    case nil => simpa using hd
    case cons =>
      rw [List.intercalate_cons_cons, List.append_assoc]
      simpa [hd, hc] using hi hl

-- Of the letters of ASCII; others, which the language makes small as well, are left as they are.
def toLowerCase (s : String) : String :=
  .ofList <| s.toList.map Char.toLower

-- `ss.join(',')`
def joinComma (ss : List String) : String :=
  ",".intercalate ss

theorem startsWith_iff {s t : String} : startsWith s t = true ↔ t.toList <+: s.toList := by
  simp [startsWith]

theorem splitHead_toList {s : String} {c : Char} :
    (splitHead s c).toList = s.toList.takeWhile (· ≠ c) := by
  simp [splitHead]

-- A character in front of the place where the text is cut.
theorem startsWith_splitHead {s t : String} {c : Char} (hc : c ∉ t.toList) :
    startsWith (splitHead s c) t = startsWith s t := by
  refine Bool.eq_iff_iff.mpr ?_
  rw [startsWith_iff, startsWith_iff, splitHead_toList]
  constructor
  case mp => exact fun h => h.trans <| List.takeWhile_prefix _
  case mpr =>
    rintro ⟨r, hr⟩
    rw [← hr, List.takeWhile_append_of_pos fun x hx => by simpa using ne_of_mem_of_not_mem hx hc]
    exact List.prefix_append _ _

section Intercalate

variable {sep : String} {c : Char} {ss ts : List String}

theorem splitOn_intercalate (h : sep.toList = [c]) (hn : ss ≠ []) (hc : ∀ s ∈ ss, c ∉ s.toList) :
    (sep.intercalate ss).toList.splitOn c = ss.map String.toList := by
  rw [String.toList_intercalate, h, List.splitOn_intercalate]
  · simpa using hc
  · simpa using hn

-- Texts without the separator can be read off the text they are joined to.
theorem intercalate_inj (h : sep.toList = [c]) (hs : ss ≠ []) (ht : ts ≠ [])
    (hsc : ∀ s ∈ ss, c ∉ s.toList) (htc : ∀ t ∈ ts, c ∉ t.toList)
    (he : sep.intercalate ss = sep.intercalate ts) : ss = ts := by
  have hl := splitOn_intercalate h hs hsc
  rw [he, splitOn_intercalate h ht htc] at hl
  exact (List.map_injective_iff.mpr (fun _ _ => String.toList_injective) hl).symm

theorem joinComma_inj (hs : ss ≠ []) (ht : ts ≠ []) (hsc : ∀ s ∈ ss, ',' ∉ s.toList)
    (htc : ∀ t ∈ ts, ',' ∉ t.toList) (h : joinComma ss = joinComma ts) : ss = ts :=
  intercalate_inj rfl hs ht hsc htc h

-- What a joined text is cut into again. Of no text at all it is one empty piece.
def pieces (c : Char) (ss : List String) : List (List Char) :=
  if ss = [] then [[]] else ss.flatMap fun s => s.toList.splitOn c

theorem splitOn_intercalate_pieces (h : sep.toList = [c]) :
    (sep.intercalate ss).toList.splitOn c = pieces c ss := by
  rw [String.toList_intercalate, h]
  induction ss
  case nil => rfl
  case cons s ss hi =>
    cases ss
    case nil => simp [pieces]
    case cons t ss =>
      simp only [List.map_cons, List.intercalate_cons_cons, List.append_assoc,
        List.singleton_append, List.splitOn_append_cons_self] at hi ⊢
      rw [hi]
      simp [pieces]

-- Lists of texts that are joined to one text are those with the same pieces.
theorem intercalate_eq_iff (h : sep.toList = [c]) :
    sep.intercalate ss = sep.intercalate ts ↔ pieces c ss = pieces c ts := by
  rw [← splitOn_intercalate_pieces h, ← splitOn_intercalate_pieces h]
  refine ⟨fun he => by rw [he], fun he => ?_⟩
  have he := congrArg [c].intercalate he
  rw [List.intercalate_splitOn, List.intercalate_splitOn] at he
  exact String.toList_inj.mp he

theorem joinComma_eq_iff : joinComma ss = joinComma ts ↔ pieces ',' ss = pieces ',' ts :=
  intercalate_eq_iff rfl

theorem pieces_eq_map (hn : ss ≠ []) (hc : ∀ s ∈ ss, c ∉ s.toList) :
    pieces c ss = ss.map String.toList := by
  rw [pieces, if_neg hn, List.flatMap_congr fun s h => List.splitOn_eq_singleton <| hc s h]
  exact List.map_eq_flatMap.symm

theorem pieces_ne_nil_pieces (hc : ∀ s ∈ ss, c ∉ s.toList) (hn : "" ∉ ss) (h : ss ≠ []) :
    pieces c ss ≠ [[]] := by
  obtain ⟨s, ss, rfl⟩ := List.exists_cons_of_ne_nil h
  rw [pieces_eq_map h hc, List.map_cons]
  intro hp
  have he := String.toList_eq_nil_iff.mp (List.cons.inj hp).1
  exact hn <| he ▸ .head _

-- Texts without the separator of which none is empty can be read off the pieces.
theorem eq_of_pieces_eq (h : pieces c ss = pieces c ts) (hs : ∀ s ∈ ss, c ∉ s.toList)
    (ht : ∀ t ∈ ts, c ∉ t.toList) (hs' : "" ∉ ss) (ht' : "" ∉ ts) : ss = ts := by
  by_cases hse : ss = []
  · by_contra hne
    rw [hse] at h hne
    exact pieces_ne_nil_pieces ht ht' (Ne.symm hne) h.symm
  · by_cases hte : ts = []
    · rw [hte] at h
      exact absurd h <| pieces_ne_nil_pieces hs hs' hse
    · rw [pieces_eq_map hse hs, pieces_eq_map hte ht] at h
      exact List.map_injective_iff.mpr (fun _ _ => String.toList_inj.mp) h

theorem mem_intercalate_head {s : String} (h : c ∈ s.toList) : c ∈ (sep.intercalate (s :: ss)).toList := by
  cases ss
  case nil       => simpa using h
  case cons t ss => simp [String.intercalate_cons_cons, h]

-- A blank behind each comma is a blank in front of the text that follows.
theorem intercalate_commaBlank {s : String} :
    ", ".intercalate (s :: ss) = joinComma (s :: ss.map (" " ++ ·)) := by
  rw [joinComma]
  induction ss generalizing s
  case nil => rfl
  case cons t ss hi =>
    rw [String.intercalate_cons_cons, hi, List.map_cons, String.intercalate_cons_cons,
      String.intercalate_cons_append, String.append_assoc, String.append_assoc]
    have hc : ", " = "," ++ " " := rfl
    rw [hc, String.append_assoc]

end Intercalate

-- A separator that the ends do not hold stands at one place.
theorem append_cons_inj {c : Char} {s t s' t' : List Char} (ht : c ∉ t) (ht' : c ∉ t')
    (he : s ++ c :: t = s' ++ c :: t') : s = s' ∧ t = t' := by
  obtain ⟨m, hs, hm⟩ | ⟨m, hs, hm⟩ := List.append_eq_append_iff.mp he
  all_goals
    cases m
    case nil => simp_all
    case cons x m =>
      simp only [List.cons_append, List.cons.injEq] at hm
      simp_all

theorem append_inj_of_not_mem {c : Char} {s t s' t' sep : String} (h : sep.toList = [c])
    (ht : c ∉ t.toList) (ht' : c ∉ t'.toList) (he : s ++ sep ++ t = s' ++ sep ++ t') :
    s = s' ∧ t = t' := by
  have he := congrArg String.toList he
  simp only [String.toList_append, h, List.append_assoc, List.singleton_append] at he
  obtain ⟨hs, ht⟩ := append_cons_inj ht ht' he
  exact ⟨String.toList_inj.mp hs, String.toList_inj.mp ht⟩

section Last

variable {c : Char} {l s t : List Char}

-- `l.slice(l.lastIndexOf(c) + 1)`
def afterLast (c : Char) (l : List Char) : List Char :=
  (l.reverse.takeWhile (· ≠ c)).reverse

-- `l.slice(0, l.lastIndexOf(c))`, of a text in which there is one.
def beforeLast (c : Char) (l : List Char) : List Char :=
  ((l.reverse.dropWhile (· ≠ c)).drop 1).reverse

theorem afterLast_append (h : c ∉ t) : afterLast c (s ++ c :: t) = t := by
  have ht : ∀ x ∈ t.reverse, decide (x ≠ c) = true := by
    simp only [List.mem_reverse, decide_eq_true_eq]
    exact fun x hx hc => h <| hc ▸ hx
  rw [afterLast, List.reverse_append, List.reverse_cons, List.append_assoc, List.singleton_append,
    List.takeWhile_append_of_pos ht]
  simp

theorem beforeLast_append (h : c ∉ t) : beforeLast c (s ++ c :: t) = s := by
  have ht : ∀ x ∈ t.reverse, decide (x ≠ c) = true := by
    simp only [List.mem_reverse, decide_eq_true_eq]
    exact fun x hx hc => h <| hc ▸ hx
  rw [beforeLast, List.reverse_append, List.reverse_cons, List.append_assoc, List.singleton_append,
    List.dropWhile_append_of_pos ht]
  simp

theorem exists_last (h : c ∈ l) : ∃ s t, l = s ++ c :: t ∧ c ∉ t := by
  obtain ⟨t, s, ht, hc⟩ := List.eq_append_cons_of_mem <| List.mem_reverse.mpr h
  refine ⟨s.reverse, t.reverse, ?_, by simpa using hc⟩
  rw [← l.reverse_reverse, ht]
  simp

end Last

end JsString
