import LoxilbUi.Library.JsString
import LoxilbUi.Library.PrefixCode

-- URLs, as far as `encodeURIComponent` writes them and `new URL` reads their path. Tabs, line ends and
-- the blanks around a URL, which the parser drops, do not occur in the texts it is given here, and the
-- characters it escapes are left as they are.

namespace JsUrl

def isUnescaped (c : Char) : Bool :=
  c.isAlphanum || c ∈ ['-', '_', '.', '!', '~', '*', Char.ofNat 0x27, '(', ')']

def escape (b : UInt8) : List Char :=
  ['%', (Nat.digitChar (b.toNat / 16)).toUpper, (Nat.digitChar (b.toNat % 16)).toUpper]

def encodeChar (c : Char) : List Char :=
  if isUnescaped c then [c] else (String.utf8EncodeChar c).flatMap escape

def encodeURIComponent (s : String) : String :=
  .ofList <| s.toList.flatMap encodeChar

def isFormPlain (c : Char) : Bool :=
  c.isAlphanum || c ∈ ['*', '-', '.', '_']

-- A blank is a plus, and so a plus is escaped.
def encodeFormChar (c : Char) : List Char :=
  if c = ' ' || isFormPlain c then [if c = ' ' then '+' else c]
  else (String.utf8EncodeChar c).flatMap escape

def encodeForm (s : String) : String :=
  .ofList <| s.toList.flatMap encodeFormChar

def pairText (param : String × String) : String :=
  encodeForm param.1 ++ "=" ++ encodeForm param.2

-- `new URLSearchParams(params).toString()`
def searchText (params : List (String × String)) : String :=
  "&".intercalate <| params.map pairText

abbrev Part :=
  List Char

-- A part of a path that stands for the folder it is in, or for the one above.
def isSingleDot (part : Part) : Bool :=
  String.ofList (part.map Char.toLower) ∈ [".", "%2e"]

def isDoubleDot (part : Part) : Bool :=
  String.ofList (part.map Char.toLower) ∈ ["..", ".%2e", "%2e.", "%2e%2e"]

-- The path that is left of `parts` after `seen`, the latest part first. Dots at the end leave a slash.
def resolveDots : List Part → List Part → List Part
  | seen, []            => seen.reverse
  | seen, part :: parts =>
    let folder := if parts = [] then [[]] else []
    if isDoubleDot part then resolveDots (folder ++ seen.tail) parts
    else if isSingleDot part then resolveDots (folder ++ seen) parts
    else resolveDots (part :: seen) parts

def joinPath (parts : List Part) : List Char :=
  parts.flatMap ('/' :: ·)

-- What follows the scheme and the host, where there are any.
def afterOrigin (url : List Char) : List Char :=
  match url.dropWhile Char.isAlphanum with
  | ':' :: '/' :: '/' :: rest | '/' :: '/' :: rest => rest.dropWhile (· ≠ '/')
  | _                                              => url

-- `new URL(url, base).pathname` of a URL that begins with its scheme or with a slash
def pathname (url : String) : String :=
  let path := afterOrigin <| url.toList.takeWhile fun c => c ≠ '?' && c ≠ '#'
  let parts := path.map (fun c => if c = '\\' then '/' else c) |>.splitOn '/'
  .ofList <| joinPath <| resolveDots [] parts.tail

section Encode

variable {c : Char}

def escapeChars : List Char :=
  '%' :: "0123456789ABCDEF".toList

theorem escape_chars {b : UInt8} (h : c ∈ escape b) : c ∈ escapeChars := by
  have hd : ∀ n < 16, (Nat.digitChar n).toUpper ∈ "0123456789ABCDEF".toList := by decide
  have hb := b.toNat_lt
  simp only [escape, List.mem_cons, List.not_mem_nil, or_false] at h
  obtain rfl | rfl | rfl := h
  · exact List.mem_cons_self
  · exact List.mem_cons_of_mem _ <| hd _ <| by omega
  · exact List.mem_cons_of_mem _ <| hd _ <| by omega

-- What is encoded is unescaped, or a part of an escape.
theorem encodeURIComponent_chars {s : String} (h : c ∈ (encodeURIComponent s).toList) :
    isUnescaped c = true ∨ ∃ b, c ∈ escape b := by
  simp only [encodeURIComponent, String.toList_ofList, List.mem_flatMap, encodeChar] at h
  obtain ⟨x, -, h⟩ := h
  split at h
  case isTrue hx =>
    obtain rfl := List.mem_singleton.mp h
    exact .inl hx
  case isFalse =>
    obtain ⟨b, -, h⟩ := List.mem_flatMap.mp h
    exact .inr ⟨b, h⟩

theorem encodeForm_chars {s : String} (h : c ∈ (encodeForm s).toList) :
    c = '+' ∨ isFormPlain c = true ∨ ∃ b, c ∈ escape b := by
  simp only [encodeForm, String.toList_ofList, List.mem_flatMap, encodeFormChar] at h
  obtain ⟨x, -, h⟩ := h
  split at h
  case isTrue hx =>
    have h := List.mem_singleton.mp h
    split at h
    · exact .inl h
    · exact .inr <| .inl <| by simp_all
  case isFalse =>
    obtain ⟨b, -, h⟩ := List.mem_flatMap.mp h
    exact .inr <| .inr ⟨b, h⟩

def isReserved (c : Char) : Bool :=
  c ∈ ['/', '?', '&', '=', '#', '@']

theorem reserved_not_escape {b : UInt8} (hc : isReserved c = true) : c ∉ escape b := by
  have hd : escapeChars.all (!isReserved ·) = true := by decide
  intro h
  have hn := List.all_eq_true.mp hd c <| escape_chars h
  simp [hc] at hn

-- What is encoded in one way or the other has no separator in it.
theorem reserved_not_encoded {s : String} (hc : isReserved c = true) :
    c ∉ (encodeURIComponent s).toList := by
  intro h
  obtain h | ⟨b, h⟩ := encodeURIComponent_chars h
  · simp only [isReserved, List.mem_cons, List.not_mem_nil, or_false, decide_eq_true_eq] at hc
    obtain rfl | rfl | rfl | rfl | rfl | rfl := hc <;> exact absurd h (by decide)
  · exact reserved_not_escape hc h

theorem reserved_not_form {s : String} (hc : isReserved c = true) : c ∉ (encodeForm s).toList := by
  intro h
  obtain rfl | h | ⟨b, h⟩ := encodeForm_chars h
  · exact absurd hc (by decide)
  · simp only [isReserved, List.mem_cons, List.not_mem_nil, or_false, decide_eq_true_eq] at hc
    obtain rfl | rfl | rfl | rfl | rfl | rfl := hc <;> exact absurd h (by decide)
  · exact reserved_not_escape hc h

end Encode

section Injective

open PrefixCode

theorem isCode_escape : IsCode escape where
  ne_nil _ := List.cons_ne_nil _ _
  inj {a b _ _} h := by
    have hd : ∀ m < 16, ∀ n < 16, (Nat.digitChar m).toUpper = (Nat.digitChar n).toUpper → m = n := by
      decide
    have ha := a.toNat_lt
    have hb := b.toNat_lt
    simp only [escape, List.cons_append, List.cons.injEq, true_and] at h
    have hh := hd _ (by omega) _ (by omega) h.1
    have hl := hd _ (by omega) _ (by omega) h.2.1
    exact UInt8.toNat_inj.mp <| by omega

theorem isCode_utf8 : IsCode String.utf8EncodeChar where
  ne_nil _ := String.utf8EncodeChar_ne_nil
  inj {a b r s} h := by
    have hd (c : Char) (l : List UInt8) :
        ByteArray.utf8DecodeChar? (String.utf8EncodeChar c ++ l).toByteArray 0 = some c := by
      rw [List.toByteArray_append]
      exact ByteArray.utf8DecodeChar?_utf8EncodeChar_append
    exact Option.some.inj <| (hd a r).symm.trans <| h ▸ hd b s

theorem isCode_bytes : IsCode fun c => (String.utf8EncodeChar c).flatMap escape :=
  isCode_utf8.comp isCode_escape

theorem bytes_head (c : Char) : ∃ l, (String.utf8EncodeChar c).flatMap escape = '%' :: l := by
  obtain ⟨b, l, h⟩ := List.exists_cons_of_ne_nil <| @String.utf8EncodeChar_ne_nil c
  exact ⟨_, by rw [h, List.flatMap_cons, escape, List.cons_append]⟩

theorem isCode_encodeChar : IsCode encodeChar := by
  refine isCode_bytes.plain (e := id) (fun _ _ _ _ h => h) fun a b l ha h => ?_
  obtain ⟨t, ht⟩ := bytes_head b
  obtain rfl : '%' = a := (List.cons.inj <| ht.symm.trans h).1
  exact absurd ha (by decide)

theorem isCode_encodeFormChar : IsCode encodeFormChar := by
  refine isCode_bytes.plain (p := fun c => c = ' ' || isFormPlain c)
    (e := fun c => if c = ' ' then '+' else c) (fun a b ha hb h => ?_) fun a b l ha h => ?_
  case refine_1 =>
    have hp : isFormPlain '+' = false := by decide
    grind
  case refine_2 =>
    obtain ⟨t, ht⟩ := bytes_head b
    have h := (List.cons.inj <| ht.symm.trans h).1
    have hp : isFormPlain '%' = false := by decide
    grind

theorem encodeURIComponent_injective : Function.Injective encodeURIComponent := fun _ _ h =>
  String.toList_injective <| isCode_encodeChar.flatMap_injective <| String.ofList_injective h

theorem encodeForm_injective : Function.Injective encodeForm := fun _ _ h =>
  String.toList_injective <| isCode_encodeFormChar.flatMap_injective <| String.ofList_injective h

theorem pairText_injective : Function.Injective pairText := fun _ _ h => by
  have hs : "=".toList = ['='] := rfl
  obtain ⟨hk, hv⟩ := JsString.append_inj_of_not_mem hs (reserved_not_form rfl) (reserved_not_form rfl) h
  exact Prod.ext (encodeForm_injective hk) (encodeForm_injective hv)

theorem pairTexts_plain {ps : List (String × String)} : ∀ s ∈ ps.map pairText, '&' ∉ s.toList := by
  simp only [List.mem_map, forall_exists_index, and_imp, forall_apply_eq_imp_iff₂]
  intro p _
  simpa [pairText] using ⟨reserved_not_form rfl, reserved_not_form rfl⟩

theorem searchText_injective : Function.Injective searchText := by
  have hn (ps : List (String × String)) : "" ∉ ps.map pairText := by simp [pairText]
  intro ps qs h
  have h := (JsString.intercalate_eq_iff (c := '&') rfl).mp h
  have h := JsString.eq_of_pieces_eq h pairTexts_plain pairTexts_plain (hn ps) (hn qs)
  exact List.map_injective_iff.mpr pairText_injective h

-- Paths without a question mark can be told from what is asked behind it.
theorem append_searchText_inj {p q : String} {ps qs : List (String × String)}
    (hp : '?' ∉ p.toList) (hq : '?' ∉ q.toList) :
    (if searchText ps = "" then p else p ++ "?" ++ searchText ps) =
      (if searchText qs = "" then q else q ++ "?" ++ searchText qs) ↔ p = q ∧ ps = qs := by
  have hcut (p t : String) (hp : '?' ∉ p.toList) :
      (if t = "" then p else p ++ "?" ++ t).toList.takeWhile (· ≠ '?') = p.toList ∧
        (if t = "" then p else p ++ "?" ++ t).toList.dropWhile (· ≠ '?') =
          if t = "" then [] else '?' :: t.toList := by
    have ha : ∀ c ∈ p.toList, decide (c ≠ '?') = true := fun c hc =>
      decide_eq_true fun h => hp <| h ▸ hc
    split
    · exact ⟨List.takeWhile_eq_self_iff.mpr ha, List.dropWhile_eq_nil_iff.mpr ha⟩
    · rw [String.toList_append, String.toList_append, List.append_assoc, List.takeWhile_append_of_pos ha,
        List.dropWhile_append_of_pos ha]
      simp
  constructor
  case mpr =>
    rintro ⟨rfl, rfl⟩
    rfl
  case mp =>
    intro h
    have h' := congrArg String.toList h
    have hpq := (hcut p _ hp).1.symm.trans <| (congrArg _ h').trans (hcut q _ hq).1
    have hs := (hcut p _ hp).2.symm.trans <| (congrArg _ h').trans (hcut q _ hq).2
    refine ⟨String.toList_inj.mp hpq, searchText_injective ?_⟩
    split at hs <;> split at hs <;> simp_all [String.toList_inj]

end Injective

section Path

variable {seen parts ps ts : List Part} {p : Part} {c : Char}

@[simp]
theorem joinPath_nil : joinPath [] = [] :=
  rfl

@[simp]
theorem joinPath_cons : joinPath (p :: ps) = '/' :: (p ++ joinPath ps) :=
  rfl

@[simp]
theorem joinPath_append : joinPath (ps ++ ts) = joinPath ps ++ joinPath ts :=
  List.flatMap_append

theorem mem_joinPath (h : c ∈ joinPath ps) : c = '/' ∨ ∃ p ∈ ps, c ∈ p := by
  obtain ⟨p, hp, h⟩ := List.mem_flatMap.mp h
  exact (List.mem_cons.mp h).imp_right fun h => ⟨p, hp, h⟩

theorem joinPath_eq_intercalate : joinPath ps = ['/'].intercalate ([] :: ps) := by
  induction ps
  case nil           => simp
  case cons p ps hi  =>
    rw [joinPath_cons, hi]
    cases ps <;> simp [List.intercalate]

theorem splitOn_joinPath (h : ∀ p ∈ ps, '/' ∉ p) : (joinPath ps).splitOn '/' = [] :: ps := by
  rw [joinPath_eq_intercalate, List.splitOn_intercalate]
  · simpa using h
  · simp

-- A path ends in the text of some parts just if these are its last parts.
theorem joinPath_suffix_iff (hp : ∀ p ∈ ps, '/' ∉ p) (ht : ∀ p ∈ ts, '/' ∉ p) :
    joinPath ts <:+ joinPath ps ↔ ts <:+ ps := by
  constructor
  case mpr =>
    rintro ⟨init, rfl⟩
    exact ⟨joinPath init, joinPath_append.symm⟩
  case mp =>
    induction ts using List.reverseRecOn generalizing ps
    case nil => exact fun _ => List.nil_suffix
    case append_singleton ts t hi =>
      rintro ⟨l, hl⟩
      obtain rfl | ⟨ps, p, rfl⟩ := List.eq_nil_or_concat ps
      case inl => simp at hl
      case inr =>
        simp only [joinPath_append, joinPath_cons, joinPath_nil, List.append_nil,
          List.concat_eq_append, ← List.append_assoc] at hl
        obtain ⟨he, rfl⟩ := JsString.append_cons_inj (ht t <| by simp) (hp p <| by simp) hl
        have hps : ∀ p ∈ ps, '/' ∉ p := fun p h => hp p <| by simp [h]
        obtain ⟨init, rfl⟩ := hi hps (fun p h => ht p <| by simp [h]) ⟨l, he⟩
        exact ⟨init, by simp⟩

theorem mem_resolveDots (h : p ∈ resolveDots seen parts) : p = [] ∨ p ∈ seen ∨ p ∈ parts := by
  induction parts generalizing seen
  case nil => exact .inr <| .inl <| by simpa [resolveDots] using h
  case cons part parts hi =>
    have hf {ps : List Part} (h : p ∈ (if parts = [] then [[]] else []) ++ ps) : p = [] ∨ p ∈ ps := by
      split at h <;> simp_all
    simp only [resolveDots] at h
    split at h
    case isTrue =>
      obtain h | h | h := hi h
      · exact .inl h
      · exact (hf h).imp_right fun h => .inl <| List.mem_of_mem_tail h
      · exact .inr <| .inr <| by simp [h]
    case isFalse =>
      split at h
      case isTrue =>
        obtain h | h | h := hi h
        · exact .inl h
        · exact (hf h).imp_right .inl
        · exact .inr <| .inr <| by simp [h]
      case isFalse =>
        obtain h | h | h := hi h
        · exact .inl h
        · obtain rfl | h := List.mem_cons.mp h
          · exact .inr <| .inr <| by simp
          · exact .inr <| .inl h
        · exact .inr <| .inr <| by simp [h]

def IsPlain (part : Part) : Prop :=
  isSingleDot part = false ∧ isDoubleDot part = false

instance : DecidablePred IsPlain :=
  fun _ => inferInstanceAs <| Decidable (_ ∧ _)

theorem resolveDots_plain (h : ∀ p ∈ parts, IsPlain p) :
    resolveDots seen parts = seen.reverse ++ parts := by
  induction parts generalizing seen
  case nil => simp [resolveDots]
  case cons part parts hi =>
    obtain ⟨⟨hs, hd⟩, h⟩ := List.forall_mem_cons.mp h
    simp [resolveDots, hs, hd, hi h]

-- Parts without dots at the end of a path stay there.
theorem suffix_resolveDots (ht : ∀ p ∈ ts, IsPlain p) :
    ts <:+ resolveDots seen (parts ++ ts) := by
  induction parts generalizing seen
  case nil =>
    rw [List.nil_append, resolveDots_plain ht]
    exact List.suffix_append ..
  case cons part parts hi =>
    simp only [List.cons_append, resolveDots]
    split
    · exact hi
    · split <;> exact hi

end Path

end JsUrl
