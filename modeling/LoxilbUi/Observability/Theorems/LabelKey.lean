import LoxilbUi.Connector.Theorems.Metrics
import LoxilbUi.Observability.Exposition

-- The labels that a line can have, and the text that stands for all the orders in which they are written.

namespace Exposition

open Observability Parser Pattern

section Escape

variable {l t v : List Char} {c : Char}

-- The three replacements put a text in front of one character each, and so they are one.
theorem replaceAll_eq_escape : replaceAll '\n' ['\\', 'n'] (replaceAll '"' ['\\', '"'] <|
    replaceAll '\\' ['\\', '\\'] v) = v.flatMap Metrics.escape := by
  induction v
  case nil => rfl
  case cons c v hi =>
    simp only [replaceAll, List.flatMap_append, List.flatMap_cons] at hi ⊢
    rw [hi, List.append_cancel_right_eq, Metrics.escape]
    by_cases hb : c = '\\'
    · simp [hb]
    · by_cases hq : c = '"'
      · simp [hq]
      · by_cases hn : c = '\n' <;> simp [hb, hq, hn]

theorem unescapeText_cons (h : c ≠ '\\') : unescapeText (c :: l) = c :: unescapeText l := by
  rw [unescapeText]
  · exact fun _ hc _ => h hc
  · exact fun _ _ hc _ => h hc

-- What is read of one escaped character.
theorem unescapeText_escape : unescapeText (Metrics.escape c ++ l) = c :: unescapeText l := by
  rw [Metrics.escape]
  split
  case isTrue hb => rw [hb]; rfl
  case isFalse hb =>
    split
    case isTrue hq => rw [hq]; rfl
    case isFalse =>
      split
      case isTrue hn => rw [hn]; rfl
      case isFalse   => exact unescapeText_cons hb

theorem unescapeText_flatMap_escape : unescapeText (v.flatMap Metrics.escape) = v := by
  induction v
  case nil => rfl
  case cons c v hi => rw [List.flatMap_cons, unescapeText_escape, hi]

theorem readQuoted_cons (hb : c ≠ '\\') (hq : c ≠ '"') :
    readQuoted (c :: l) = (readQuoted l).map fun (raw, rest) => (c :: raw, rest) := by
  rw [readQuoted]
  · exact fun hc _ => hb hc
  · exact fun _ _ hc _ => hb hc
  · exact hq

theorem readQuoted_escape : readQuoted (Metrics.escape c ++ l) =
    (readQuoted l).map fun (raw, rest) => (Metrics.escape c ++ raw, rest) := by
  rw [Metrics.escape]
  split
  case isTrue => rfl
  case isFalse hb =>
    split
    case isTrue => rfl
    case isFalse hq =>
      split
      case isTrue  => rfl
      case isFalse => exact readQuoted_cons hb hq

theorem readQuoted_flatMap_escape : readQuoted (v.flatMap Metrics.escape ++ '"' :: t) =
    some (v.flatMap Metrics.escape, t) := by
  induction v
  case nil => rfl
  case cons c v hi => rw [List.flatMap_cons, List.append_assoc, readQuoted_escape, hi, Option.map_some]

end Escape

-- The labels that can be read off a line: of a name that is a word, and not that of the setter which a
-- plain object has.
structure Readable (labels : Labels) : Prop where
  named   : ∀ p ∈ labels.entries, p.1 ≠ "" ∧ ∀ c ∈ p.1.toList, isLabelChar c = true
  settled : "__proto__" ∉ labels.keys
  short   : ∀ p ∈ labels.entries, JsString.length p.2 ≤ Limits.labelLength

variable {labels labels' : Labels} {p : String × String} {ps : List (String × String)} {l t rest : List Char}
  {k v : String}

section Readable

theorem readable_empty : Readable .empty where
  named   := nofun
  settled := nofun
  short   := nofun

theorem Readable.assign (h : Readable labels) (hn : k ≠ "") (hk : ∀ c ∈ k.toList, isLabelChar c = true)
    (hv : JsString.length v ≤ Limits.labelLength) : Readable (PlainObject.assign labels k v) := by
  rw [PlainObject.assign]
  split
  case isTrue     => exact h
  case isFalse hp =>
    have hm : ∀ p ∈ (labels.set k v).entries, p = (k, v) ∨ p ∈ labels.entries := by
      intro p hp
      have hg : (labels.set k v).get? p.1 = some p.2 := Dict.get?_eq_some_iff.mpr hp
      rw [Dict.get?_set] at hg
      split at hg
      case isTrue he  => exact .inl <| Prod.ext he (Option.some.inj hg).symm
      case isFalse he => exact .inr <| Dict.get?_eq_some_iff.mp hg
    constructor
    case named =>
      intro p hp
      obtain rfl | hp := hm p hp
      · exact ⟨hn, hk⟩
      · exact h.named p hp
    case settled =>
      exact fun hs => (Dict.mem_keys_set.mp hs).elim (fun he => hp he.symm) h.settled
    case short =>
      intro p hp
      obtain rfl | hp := hm p hp
      · exact hv
      · exact h.short p hp

theorem parseLabels_done (h : (l.dropWhile isLabelGap).head? = some '\x7d') :
    parseLabels labels l = .done labels (l.dropWhile isLabelGap).tail := by
  rw [parseLabels, if_pos h]

theorem parseLabels_none (h : (l.dropWhile isLabelGap).head? ≠ some '\x7d')
    (hp : readPair (l.dropWhile isLabelGap) = none) : parseLabels labels l = .malformed := by
  rw [parseLabels, if_neg h]
  split
  case h_1       => rfl
  case h_2 hs    => rw [hp] at hs; cases hs

theorem parseLabels_some {name raw : List Char} (h : (l.dropWhile isLabelGap).head? ≠ some '\x7d')
    (hp : readPair (l.dropWhile isLabelGap) = some (name, raw, rest)) : parseLabels labels l =
      if JsString.length (.ofList <| unescapeText raw) > Limits.labelLength then
        .breach <| JsString.length <| .ofList <| unescapeText raw
      else parseLabels (PlainObject.assign labels (.ofList name) (.ofList <| unescapeText raw)) rest := by
  rw [parseLabels, if_neg h]
  split
  case h_1 hs => rw [hp] at hs; cases hs
  case h_2 hs =>
    obtain ⟨rfl, rfl, rfl⟩ : _ ∧ _ ∧ _ := by simpa using hs.symm.trans hp
    rfl

theorem Readable.parseLabels (h : Readable labels) (hd : parseLabels labels l = .done labels' rest) :
    Readable labels' := by
  induction labels, l using parseLabels.induct
  case case1 labels l m hm =>
    rw [parseLabels_done hm] at hd
    obtain ⟨rfl, -⟩ := LabelParse.done.inj hd
    exact h
  case case2 labels l m hm hp =>
    rw [parseLabels_none hm hp] at hd
    cases hd
  case case3 labels l m hm name raw rest' hp value hl =>
    rw [parseLabels_some hm hp, if_pos hl] at hd
    cases hd
  case case4 labels l m hm name raw rest' hp value hl hi =>
    rw [parseLabels_some hm hp, if_neg hl] at hd
    obtain ⟨rfl, hn, -⟩ := readPair_eq_some hp
    refine hi (h.assign ?_ ?_ <| Nat.le_of_not_lt hl) hd
    · simpa using hn
    · rw [String.toList_ofList]
      exact fun c hc => List.mem_takeWhile_imp hc

end Readable

section Written

-- A character that no name of a label holds stands behind one.
theorem readPair_pairText (hn : p.1 ≠ "") (hc : ∀ c ∈ p.1.toList, isLabelChar c = true) :
    readPair (Metrics.pairText p ++ t) = some (p.1.toList, p.2.toList.flatMap Metrics.escape, t) := by
  have htake : (Metrics.pairText p ++ t).takeWhile isLabelChar = p.1.toList := by
    rw [Metrics.pairText, List.append_assoc, List.append_assoc, List.takeWhile_append_of_pos hc]
    simp [isLabelChar]
  have hdrop : (Metrics.pairText p ++ t).dropWhile isLabelChar =
      '=' :: '"' :: (p.2.toList.flatMap Metrics.escape ++ '"' :: t) := by
    rw [Metrics.pairText, List.append_assoc, List.append_assoc, List.dropWhile_append_of_pos hc]
    simp [isLabelChar]
  have hn : p.1.toList ≠ [] := by simpa using hn
  rw [readPair, htake, if_neg hn, hdrop]
  simp only [readQuoted_flatMap_escape, Option.map_some]

-- A pair with the comma that stands before it.
def nextPair (p : String × String) : List Char :=
  ',' :: Metrics.pairText p

theorem intercalate_pairText : [','].intercalate ((p :: ps).map Metrics.pairText) =
    Metrics.pairText p ++ ps.flatMap nextPair := by
  induction ps generalizing p
  case nil          => simp
  case cons q ps hi =>
    rw [List.map_cons, List.map_cons, List.intercalate_cons_cons, ← List.map_cons, hi]
    simp [nextPair]

theorem parseLabels_comma : parseLabels labels (',' :: l) = parseLabels labels l := by
  rw [parseLabels.eq_def labels (',' :: l), parseLabels.eq_def labels l]
  rfl

theorem dropWhile_pairText (hn : p.1 ≠ "") (hc : ∀ c ∈ p.1.toList, isLabelChar c = true) :
    (Metrics.pairText p ++ t).dropWhile isLabelGap = Metrics.pairText p ++ t ∧
      (Metrics.pairText p ++ t).head? ≠ some '\x7d' := by
  obtain ⟨c, w, hw⟩ := List.exists_cons_of_ne_nil <| mt String.toList_eq_nil_iff.mp hn
  have hl := hc c <| hw ▸ .head _
  have ht : Metrics.pairText p ++ t = c :: (w ++ '=' :: '"' :: p.2.toList.flatMap Metrics.escape ++ ['"'] ++ t) := by
    rw [Metrics.pairText, hw]
    simp
  rw [ht]
  constructor
  case left =>
    refine List.dropWhile_cons_of_neg ?_
    simp only [isLabelGap, Bool.or_eq_true, decide_eq_true_eq]
    rintro (rfl | rfl) <;> contradiction
  case right =>
    rw [List.head?_cons, Ne, Option.some.injEq]
    rintro rfl
    contradiction

-- The pairs are assigned one by one.
theorem parseLabels_pairs (hn : ∀ p ∈ ps, p.1 ≠ "" ∧ ∀ c ∈ p.1.toList, isLabelChar c = true)
    (hv : ∀ p ∈ ps, JsString.length p.2 ≤ Limits.labelLength) :
    parseLabels labels (ps.flatMap nextPair ++ '\x7d' :: t) =
      .done (ps.foldl (fun labels p => PlainObject.assign labels p.1 p.2) labels) t := by
  induction ps generalizing labels
  case nil          => exact parseLabels_done rfl
  case cons p ps hi =>
    obtain ⟨⟨hp, hc⟩, hn⟩ := List.forall_mem_cons.mp hn
    obtain ⟨hl, hv⟩ := List.forall_mem_cons.mp hv
    obtain ⟨hd, hh⟩ := dropWhile_pairText (t := ps.flatMap nextPair ++ '\x7d' :: t) hp hc
    rw [List.flatMap_cons, List.append_assoc, nextPair, List.cons_append, parseLabels_comma,
      parseLabels_some (by rwa [hd]) (by rw [hd]; exact readPair_pairText hp hc), unescapeText_flatMap_escape,
      String.ofList_toList, if_neg <| Nat.not_lt_of_le hl, String.ofList_toList, hi hn hv, List.foldl_cons]

theorem foldl_assign_entries (hk : (labels.entries ++ ps).map Prod.fst |>.Nodup)
    (hp : "__proto__" ∉ ps.map Prod.fst) :
    (ps.foldl (fun labels p => PlainObject.assign labels p.1 p.2) labels).entries = labels.entries ++ ps := by
  induction ps generalizing labels
  case nil          => simp
  case cons p ps hi =>
    obtain ⟨hp', hp⟩ := not_or.mp <| mt List.mem_cons.mpr hp
    have hm : p.1 ∉ labels.entries.map Prod.fst := by
      rw [List.map_append, List.nodup_append] at hk
      exact fun h => hk.2.2 p.1 h p.1 (by simp) rfl
    have he : (PlainObject.assign labels p.1 p.2).entries = labels.entries ++ [p] := by
      rw [PlainObject.assign, if_neg (Ne.symm hp')]
      exact Dict.put_of_not_mem hm
    have hk : ((PlainObject.assign labels p.1 p.2).entries ++ ps).map Prod.fst |>.Nodup := by
      rw [he]
      simpa using hk
    rw [List.foldl_cons, hi hk hp, he]
    simp

-- A written set of labels is read back in the order in which it is written.
theorem parseLabels_written (h : Readable labels) (hp : labels.entries.Perm ps) :
    ∃ labels' : Labels, labels'.entries = ps ∧
      parseLabels .empty ([','].intercalate (ps.map Metrics.pairText) ++ '\x7d' :: t) = .done labels' t := by
  have hk : (ps.map Prod.fst).Nodup := (hp.map Prod.fst).nodup_iff.mp labels.nodup
  have hs : "__proto__" ∉ ps.map Prod.fst := fun hm => h.settled <| (hp.map Prod.fst).mem_iff.mpr hm
  have he := @foldl_assign_entries .empty ps (by simpa [Dict.empty] using hk) hs
  refine ⟨_, he, ?_⟩
  have hd := @parseLabels_pairs .empty ps t (fun p hm => h.named p <| hp.mem_iff.mpr hm)
    (fun p hm => h.short p <| hp.mem_iff.mpr hm)
  cases ps
  case nil          => exact hd
  case cons p ps    =>
    rw [intercalate_pairText]
    rw [List.flatMap_cons, nextPair, List.cons_append, List.cons_append, parseLabels_comma] at hd
    exact hd

end Written

section Key

-- The labels in the order of their names.
def sorted (labels : Labels) : List (String × String) :=
  (JsString.sort labels.keys).map fun k => (k, (labels.get? k).getD "")

theorem labelKeyOf_eq : labelKeyOf labels = .ofList ([','].intercalate <| (sorted labels).map Metrics.pairText) := by
  refine String.toList_inj.mp ?_
  rw [labelKeyOf, JsString.joinComma, String.toList_intercalate, String.toList_ofList, sorted, List.map_map,
    List.map_map, String.toList_ofList]
  refine congrArg (List.intercalate [',']) <| List.map_congr_left fun k _ => ?_
  simp only [Function.comp_apply, String.toList_ofList, replaceAll_eq_escape, Metrics.pairText]

theorem entries_perm_sorted : labels.entries.Perm (sorted labels) := by
  have hk : labels.entries = labels.keys.map fun k => (k, (labels.get? k).getD "") := by
    rw [Dict.keys, List.map_map]
    refine (List.map_id _).symm.trans <| List.map_congr_left fun p hp => ?_
    rw [Function.comp_apply, Dict.get?_eq_some_iff.mpr hp]
    rfl
  rw [hk]
  exact (JsString.sort_perm.map _).symm

theorem entries_perm_iff : labels.entries.Perm labels'.entries ↔ ∀ k, labels.get? k = labels'.get? k := by
  have hn {labels : Labels} : labels.entries.Nodup := .of_map _ labels.nodup
  rw [List.perm_ext_iff_of_nodup hn hn]
  constructor
  case mp =>
    refine fun h k => Option.ext fun v => ?_
    rw [Dict.get?_eq_some_iff, Dict.get?_eq_some_iff, h]
  case mpr =>
    rintro h ⟨k, v⟩
    rw [← Dict.get?_eq_some_iff, ← Dict.get?_eq_some_iff, h]

theorem sorted_eq_of_perm (h : labels.entries.Perm labels'.entries) : sorted labels = sorted labels' := by
  have hk : JsString.sort labels.keys = JsString.sort labels'.keys := JsString.sort_eq_of_perm <| h.map Prod.fst
  rw [sorted, sorted, hk]
  exact List.map_congr_left fun k _ => by rw [entries_perm_iff.mp h k]

-- The key is a text of the labels that is read back.
theorem parseLabels_labelKeyOf (h : Readable labels) : ∃ labels' : Labels, labels'.entries = sorted labels ∧
    parseLabels .empty ((labelKeyOf labels).toList ++ '\x7d' :: t) = .done labels' t := by
  rw [labelKeyOf_eq, String.toList_ofList]
  exact parseLabels_written h entries_perm_sorted

-- Readable labels have one key just if they are the same in some order.
theorem labelKeyOf_inj_iff (h : Readable labels) (h' : Readable labels') :
    labelKeyOf labels = labelKeyOf labels' ↔ ∀ k, labels.get? k = labels'.get? k := by
  rw [← entries_perm_iff]
  constructor
  case mp =>
    intro he
    obtain ⟨m, hm, hd⟩ := @parseLabels_labelKeyOf _ [] h
    obtain ⟨m', hm', hd'⟩ := @parseLabels_labelKeyOf _ [] h'
    obtain ⟨rfl, -⟩ := LabelParse.done.inj <| hd.symm.trans <| (congrArg _ <| by rw [he]).trans hd'
    have hs : sorted labels = sorted labels' := hm.symm.trans hm'
    exact (entries_perm_sorted.trans <| .of_eq hs).trans entries_perm_sorted.symm
  case mpr =>
    intro hp
    rw [labelKeyOf_eq, labelKeyOf_eq, sorted_eq_of_perm hp]

-- What can be read off some line is what is readable.
theorem readable_iff : Readable labels ↔ ∃ line rest, parseLabels .empty line = .done labels rest := by
  constructor
  case mp =>
    intro h
    obtain ⟨labels', he, hd⟩ := @parseLabels_written labels labels.entries [] h (.refl _)
    obtain rfl := Dict.eq_of_entries he
    exact ⟨_, _, hd⟩
  case mpr =>
    rintro ⟨line, rest, hd⟩
    exact readable_empty.parseLabels hd

theorem labelKey_canonical {line line' rest' : List Char} (h : parseLabels .empty line = .done labels rest)
    (h' : parseLabels .empty line' = .done labels' rest') :
    (labelKeyOf labels = labelKeyOf labels' ↔ ∀ k, labels.get? k = labels'.get? k) ∧
      ∃ again, parseLabels .empty ((labelKeyOf labels).toList ++ '\x7d' :: t) = .done again t ∧
        ∀ k, again.get? k = labels.get? k := by
  have hr := readable_iff.mpr ⟨line, rest, h⟩
  refine ⟨labelKeyOf_inj_iff hr <| readable_iff.mpr ⟨line', rest', h'⟩, ?_⟩
  obtain ⟨again, he, hd⟩ := parseLabels_labelKeyOf (t := t) hr
  exact ⟨again, hd, entries_perm_iff.mp <| he ▸ entries_perm_sorted.symm⟩

-- The same two labels in either order.
theorem labelKey_canonical_swap :
    labelKeyOf (.ofList [("b", "2"), ("a", "1")]) = labelKeyOf (.ofList [("a", "1"), ("b", "2")]) := by
  have ha : "a" ≠ "" ∧ ∀ c ∈ "a".toList, isLabelChar c = true := ⟨by decide, List.all_eq_true.mp <| by decide⟩
  have hb : "b" ≠ "" ∧ ∀ c ∈ "b".toList, isLabelChar c = true := ⟨by decide, List.all_eq_true.mp <| by decide⟩
  have hv : JsString.length "1" ≤ Limits.labelLength ∧ JsString.length "2" ≤ Limits.labelLength := by decide
  have h := @parseLabels_pairs .empty [("b", "2"), ("a", "1")] []
    (List.forall_mem_cons.mpr ⟨hb, List.forall_mem_singleton.mpr ha⟩)
    (List.forall_mem_cons.mpr ⟨hv.2, List.forall_mem_singleton.mpr hv.1⟩)
  have h' := @parseLabels_pairs .empty [("a", "1"), ("b", "2")] []
    (List.forall_mem_cons.mpr ⟨ha, List.forall_mem_singleton.mpr hb⟩)
    (List.forall_mem_cons.mpr ⟨hv.1, List.forall_mem_singleton.mpr hv.2⟩)
  refine (labelKey_canonical (t := []) h h').1.mpr fun k => ?_
  have hg : (Dict.ofList [("b", "2"), ("a", "1")]).get? k = (Dict.ofList [("a", "1"), ("b", "2")]).get? k := by
    simp only [Dict.get?_ofList, List.reverse_cons, List.reverse_nil, List.nil_append, List.cons_append,
      Dict.lookup_cons]
    by_cases ha : k = "a"
    · rw [if_pos ha, if_neg (by rw [ha]; decide), if_pos ha]
    · rw [if_neg ha, if_neg ha]
  exact hg

end Key

end Exposition
