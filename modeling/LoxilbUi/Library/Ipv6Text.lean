import LoxilbUi.Library.Ipv6
import LoxilbUi.Library.JsString
import Mathlib.Tactic.IntervalCases

-- The texts that IPv6 addresses may be written as: eight groups of hexadecimal digits, or fewer around
-- two colons that stand for the rest, of which the last two may be an IPv4 address.

namespace Ipv6Text

open Ipv6

variable {v w q head text : List Char} {ws l r : List (List Char)} {k m n : Nat} {c : Char}

def IsGroup (w : List Char) : Prop :=
  w ≠ [] ∧ w.length ≤ 4 ∧ ∀ c ∈ w, isHex c = true

def joined (ws : List (List Char)) : List Char :=
  [':'].intercalate ws

-- Groups, with their number.
structure Groups (n : Nat) (ws : List (List Char)) : Prop where
  length : ws.length = n
  group  : ∀ w ∈ ws, IsGroup w

def IsQuad (q : List Char) : Prop :=
  ∃ ns : List Nat, ns.length = 4 ∧ (∀ n ∈ ns, n ≤ 255) ∧ q = ['.'].intercalate (ns.map <| Nat.toDigits 10)

-- Text for `n` groups, of which the last two may be written as an IPv4 address.
inductive Run : Nat → List Char → Prop
  | groups {n : Nat} {ws : List (List Char)} (h : Groups n ws) : Run n (joined ws)
  | quad {n : Nat} {ws : List (List Char)} {q : List Char} (h : Groups n ws) (hq : IsQuad q) :
    Run (n + 2) (joined <| ws ++ [q])

inductive IsAddress : List Char → Prop
  | full {text : List Char} (h : Run 8 text) : IsAddress text
  -- What is left out is one group or more.
  | elided {m n : Nat} {ws : List (List Char)} {right : List Char} (hl : Groups m ws) (hr : Run n right)
    (h : m + n < 8) : IsAddress (joined ws ++ ':' :: ':' :: right)

section Words

theorem colon_not_hex (h : ∀ c ∈ w, isHex c = true) : ':' ∉ w :=
  fun hc => absurd (h ':' hc) <| by decide

theorem IsQuad.chars (h : IsQuad q) (hc : c ∈ q) : c.isDigit = true ∨ c = '.' := by
  obtain ⟨ns, -, -, rfl⟩ := h
  by_contra hn
  obtain ⟨hd, hp⟩ := not_or.mp hn
  refine JsString.not_mem_intercalate hp (fun w hw hc => ?_) hc
  obtain ⟨n, -, rfl⟩ := List.mem_map.mp hw
  exact hd <| Nat.isDigit_of_mem_toDigits (by omega) (by omega) hc

theorem IsQuad.colon (h : IsQuad q) : ':' ∉ q :=
  fun hc => by simpa using h.chars hc

theorem IsQuad.dot (h : IsQuad q) : '.' ∈ q := by
  obtain ⟨ns, hl, -, rfl⟩ := h
  obtain ⟨m, n, ns, rfl⟩ : ∃ m n l, ns = m :: n :: l := by
    match ns, hl with
    | m :: n :: l, _ => exact ⟨m, n, l, rfl⟩
  simp [List.intercalate_cons_cons]

theorem IsQuad.ne_nil (h : IsQuad q) : q ≠ [] :=
  List.ne_nil_of_mem h.dot

-- What stands between the colons of a text of groups.
def Word (w : List Char) : Prop :=
  ':' ∉ w ∧ w ≠ []

theorem IsGroup.word (h : IsGroup w) : Word w :=
  ⟨colon_not_hex h.2.2, h.1⟩

theorem Groups.words (h : Groups n ws) : ∀ w ∈ ws, Word w :=
  fun w hw => (h.group w hw).word

theorem IsQuad.word (h : IsQuad q) : Word q :=
  ⟨h.colon, h.ne_nil⟩

theorem Groups.append_quad (h : Groups n ws) (hq : IsQuad q) : ∀ w ∈ ws ++ [q], Word w := by
  simp only [List.mem_append, List.mem_singleton]
  rintro w (hw | rfl)
  · exact h.words w hw
  · exact hq.word

theorem Groups.ne_nil (h : Groups (n + 1) ws) : ws ≠ [] :=
  List.ne_nil_of_length_pos <| by rw [h.length]; omega

theorem Groups.nil (h : Groups 0 ws) : ws = [] :=
  List.eq_nil_of_length_eq_zero h.length

theorem groups_nil : Groups 0 [] :=
  ⟨rfl, by simp⟩

@[simp]
theorem joined_nil : joined [] = [] :=
  rfl

theorem joined_cons (h : ws ≠ []) : joined (w :: ws) = w ++ ':' :: joined ws := by
  obtain ⟨v, ws, rfl⟩ := List.exists_cons_of_ne_nil h
  simp [joined, List.intercalate_cons_cons]

theorem joined_concat (h : ws ≠ []) : joined (ws ++ [w]) = joined ws ++ ':' :: w := by
  induction ws
  case nil => contradiction
  case cons v ws hi =>
    by_cases hn : ws = []
    · simp [hn, joined, List.intercalate_cons_cons]
    · rw [List.cons_append, joined_cons (by simp), hi hn, joined_cons hn, List.append_assoc, List.cons_append]

theorem splitOn_joined (hw : ∀ w ∈ ws, Word w) (h : ws ≠ []) : (joined ws).splitOn ':' = ws :=
  List.splitOn_intercalate _ (fun w h => (hw w h).1) h

theorem joined_ne_nil (hw : ∀ w ∈ ws, Word w) (h : ws ≠ []) : joined ws ≠ [] := by
  obtain ⟨w, ws, rfl⟩ := List.exists_cons_of_ne_nil h
  intro hn
  by_cases hs : ws = []
  · exact (hw w <| .head _).2 <| by simpa [hs, joined] using hn
  · simp [joined_cons hs] at hn

-- No colon stands at the end of joined words.
theorem joined_end (hw : ∀ w ∈ ws, Word w) : (joined ws).getLast? ≠ some ':' := by
  induction ws using List.reverseRecOn
  case nil => simp
  case append_singleton ws w _ =>
    obtain ⟨hc, hn⟩ := hw w <| by simp
    obtain rfl | ⟨v, c, rfl⟩ := List.eq_nil_or_concat w
    · contradiction
    · have hc : c ≠ ':' := fun h => hc <| by simp [h]
      by_cases h : ws = []
      · simpa [h, joined] using hc
      · rw [joined_concat h, List.concat_eq_append, ← List.cons_append, ← List.append_assoc,
          List.getLast?_concat]
        simpa using hc

theorem joined_chars (h : c ∈ joined ws) (hc : c ≠ ':') : ∃ w ∈ ws, c ∈ w := by
  by_contra hn
  simp only [not_exists, not_and] at hn
  exact JsString.not_mem_intercalate hc hn h

theorem Groups.chars (hg : Groups n ws) (h : c ∈ joined ws) : isHex c = true ∨ c = ':' := by
  by_cases hc : c = ':'
  · exact .inr hc
  · obtain ⟨w, hw, h⟩ := joined_chars h hc
    exact .inl <| (hg.group w hw).2.2 c h

theorem Groups.dot (hg : Groups n ws) : '.' ∉ joined ws :=
  fun h => absurd (hg.chars h) <| by decide

end Words

section Numerals

theorem digitChar_isDigit (h : c.isDigit = true) :
    Nat.digitChar (c.toNat - '0'.toNat) = c ∧ c.toNat - '0'.toNat < 10 := by
  have hb := JsString.isDigit_iff.mp h
  have hc := Char.ofNat_toNat c
  generalize c.toNat = n at hb hc
  subst hc
  obtain ⟨hl, hu⟩ := hb
  interval_cases n <;> decide

-- Digits that do not begin with a zero are those that the number is written with.
theorem toDigits_ofDigitChars (hd : ∀ c ∈ w, c.isDigit = true) (hn : w ≠ [])
    (hz : w.head? ≠ some '0' ∨ w.length = 1) : Nat.toDigits 10 (Nat.ofDigitChars 10 w 0) = w := by
  induction w using List.reverseRecOn
  case nil => exact absurd rfl hn
  case append_singleton w c hi =>
    obtain ⟨hc, hlt⟩ := digitChar_isDigit <| hd c <| by simp
    by_cases hw : w = []
    · rw [hw, List.nil_append, Nat.ofDigitChars_cons, Nat.ofDigitChars_nil, Nat.mul_zero, Nat.zero_add,
        Nat.toDigits_of_lt_base hlt, hc]
    · have hz : w.head? ≠ some '0' := by
        obtain ⟨x, w, rfl⟩ := List.exists_cons_of_ne_nil hw
        simpa using hz
      have hi := hi (fun c hc => hd c <| by simp [hc]) hw (.inl hz)
      have hpos : Nat.ofDigitChars 10 w 0 ≠ 0 := fun h => by
        rw [h] at hi
        exact hz <| hi ▸ rfl
      have hdiv : (10 * Nat.ofDigitChars 10 w 0 + (c.toNat - '0'.toNat)) / 10 = Nat.ofDigitChars 10 w 0 := by
        omega
      have hmod : (10 * Nat.ofDigitChars 10 w 0 + (c.toNat - '0'.toNat)) % 10 = c.toNat - '0'.toNat := by
        omega
      rw [Nat.ofDigitChars_append, Nat.ofDigitChars_cons, Nat.ofDigitChars_nil,
        Nat.toDigits_of_base_le (by omega) (by omega), hdiv, hmod, hi, hc]

theorem toDigits_head (h : n ≠ 0) : (Nat.toDigits 10 n).head? ≠ some '0' := by
  induction n using Nat.strongRecOn
  case ind n hi =>
    by_cases hn : n < 10
    · rw [Nat.toDigits_of_lt_base hn]
      interval_cases n <;> first | contradiction | decide
    · rw [Nat.toDigits_of_base_le (by omega) (by omega), List.head?_append_of_ne_nil _ Nat.toDigits_ne_nil]
      exact hi (n / 10) (by omega) (by omega)

-- Four numerals up to 255 with points between them.
theorem isQuad_iff : IsQuad q ↔
    (q.splitOn '.').length = 4 ∧ ∀ part ∈ q.splitOn '.', ∃ n ≤ 255, part = Nat.toDigits 10 n := by
  constructor
  case mp =>
    rintro ⟨ns, hl, hb, rfl⟩
    have hs : (['.'].intercalate <| ns.map <| Nat.toDigits 10).splitOn '.' = ns.map (Nat.toDigits 10) := by
      refine List.splitOn_intercalate _ (fun w hw hd => ?_) <| by
        simpa using List.ne_nil_of_length_pos (by omega)
      obtain ⟨n, -, rfl⟩ := List.mem_map.mp hw
      exact absurd (Nat.isDigit_of_mem_toDigits (by omega) (by omega) hd) <| by decide
    rw [hs, List.length_map]
    refine ⟨hl, fun part hp => ?_⟩
    obtain ⟨n, hn, rfl⟩ := List.mem_map.mp hp
    exact ⟨n, hb n hn, rfl⟩
  case mpr =>
    rintro ⟨hl, ho⟩
    have ho {part : List Char} (hp : part ∈ q.splitOn '.') :
        Nat.ofDigitChars 10 part 0 ≤ 255 ∧ Nat.toDigits 10 (Nat.ofDigitChars 10 part 0) = part := by
      obtain ⟨n, hn, rfl⟩ := ho part hp
      rw [Nat.ofDigitChars_ten_toDigits]
      exact ⟨hn, rfl⟩
    refine ⟨(q.splitOn '.').map (Nat.ofDigitChars 10 · 0), by simpa using hl, ?_, ?_⟩
    · simp only [List.mem_map, forall_exists_index, and_imp, forall_apply_eq_imp_iff₂]
      exact fun part hp => (ho hp).1
    · have hm : ((q.splitOn '.').map (Nat.ofDigitChars 10 · 0)).map (Nat.toDigits 10) = q.splitOn '.' := by
        rw [List.map_map]
        exact (List.map_congr_left fun part hp => (ho hp).2).trans <| List.map_id _
      rw [hm, List.intercalate_splitOn]

end Numerals

section Forms

-- A text of `n` groups, or of fewer with two colons between.
inductive Body (n : Nat) : List Char → Prop
  | full {ws : List (List Char)} (h : Groups n ws) : Body n (joined ws)
  | elided {l r : List (List Char)} {k m : Nat} (hl : Groups k l) (hr : Groups m r) (h : k + m < n) :
    Body n (joined l ++ ':' :: ':' :: joined r)

theorem splitDouble_joined (h : ∀ w ∈ ws, Word w) : splitDouble (joined ws) = [joined ws] := by
  have hi := splitDouble_intercalate (l := []) h
  simpa [joined, splitDouble] using hi

theorem splitDouble_elided (h : ∀ w ∈ ws, Word w) :
    splitDouble (joined ws ++ ':' :: ':' :: text) = joined ws :: splitDouble text := by
  rw [joined, splitDouble_intercalate h, splitDouble_double]
  simp

theorem Body.chars (h : Body n head) (hc : c ∈ head) : isHex c = true ∨ c = ':' := by
  cases h
  case full h => exact h.chars hc
  case elided hl hr _ =>
    simp only [List.mem_append, List.mem_cons] at hc
    obtain hc | rfl | rfl | hc := hc
    · exact hl.chars hc
    · exact .inr rfl
    · exact .inr rfl
    · exact hr.chars hc

theorem Body.dot (h : Body n head) : '.' ∉ head :=
  fun hc => absurd (h.chars hc) <| by decide

theorem Body.colon (h : Body (n + 2) head) : ':' ∈ head := by
  cases h
  case full ws h =>
    match ws, h.length with
    | w :: w' :: ws, _ => simp [joined_cons]
  case elided => simp

theorem Body.ne_nil (h : Body (n + 2) head) : head ≠ [] :=
  List.ne_nil_of_mem h.colon

theorem Body.split (h : Body n head) : (splitDouble head).length ≤ 2 := by
  cases h
  case full h         => simp [splitDouble_joined h.words]
  case elided hl hr _ => simp [splitDouble_elided hl.words, splitDouble_joined hr.words]

theorem Body.split_quad (h : Body (n + 1) head) (hq : IsQuad q) : (splitDouble (head ++ ':' :: q)).length ≤ 2 := by
  cases h
  case full h =>
    rw [← joined_concat h.ne_nil, splitDouble_joined <| h.append_quad hq]
    simp
  case elided l r k m hl hr _ =>
    rw [List.append_assoc, List.cons_append, List.cons_append, splitDouble_elided hl.words]
    by_cases hn : r = []
    · have hq' : splitDouble (':' :: q) = [':' :: q] := by
        have hw := splitDouble_word (l := []) hq.colon
        have hne (l' : List Char) : q ≠ ':' :: l' := fun he => hq.colon <| by simp [he]
        rw [splitDouble_cons <| .inr hne]
        simpa [splitDouble] using congrArg (List.modifyHead (':' :: ·)) hw
      simp [hn, hq']
    · rw [← joined_concat hn, splitDouble_joined <| hr.append_quad hq]
      simp

-- What may stand before the last colon of an address that ends in an IPv4 address.
inductive Inner : List Char → Prop
  | full {ws : List (List Char)} (h : Groups 6 ws) : Inner (joined ws)
  | elided {l r : List (List Char)} {k m : Nat} (hl : Groups k l) (hr : Groups (m + 1) r) (h : k + m < 5) :
    Inner (joined l ++ ':' :: ':' :: joined r)

-- At most five groups, and `j` colons behind them.
def Ends (j : Nat) (head : List Char) : Prop :=
  ∃ n ws, Groups n ws ∧ n ≤ 5 ∧ head = joined ws ++ List.replicate j ':'

theorem body_six_iff : Body 6 head ↔ Inner head ∨ Ends 2 head := by
  constructor
  case mp =>
    intro h
    cases h
    case full h => exact .inl <| .full h
    case elided l r k m hl hr h =>
      cases m
      case zero => exact .inr ⟨k, l, hl, by omega, by rw [hr.nil]; rfl⟩
      case succ => exact .inl <| .elided hl hr <| by omega
  case mpr =>
    rintro (h | ⟨n, ws, hg, hn, rfl⟩)
    · cases h
      case full h         => exact .full h
      case elided hl hr h => exact .elided hl hr <| by omega
    · exact .elided hg groups_nil <| by omega

theorem isAddress_iff : IsAddress v ↔
    Body 8 v ∨ ∃ head q, IsQuad q ∧ (Inner head ∨ Ends 1 head) ∧ v = head ++ ':' :: q := by
  constructor
  case mp =>
    intro h
    cases h
    case full h =>
      cases h
      case groups h  => exact .inl <| .full h
      case quad hq h => exact .inr ⟨_, _, hq, .inl <| .full h, joined_concat h.ne_nil⟩
    case elided ws right hl hr h =>
      cases hr
      case groups hr => exact .inl <| .elided hl hr h
      case quad m ws' q hr hq =>
        cases m
        case zero =>
          refine .inr ⟨joined ws ++ [':'], q, hq, .inr ⟨_, ws, hl, by omega, rfl⟩, ?_⟩
          simp [hr.nil, joined]
        case succ m =>
          refine .inr ⟨joined ws ++ ':' :: ':' :: joined ws', q, hq, .inl <| .elided hl hr <| by omega, ?_⟩
          rw [joined_concat hr.ne_nil]
          simp
  case mpr =>
    rintro (h | ⟨head, q, hq, h | ⟨n, ws, hg, hn, rfl⟩, rfl⟩)
    · cases h
      case full h         => exact .full <| .groups h
      case elided hl hr h => exact .elided hl (.groups hr) h
    · cases h
      case full h =>
        rw [← joined_concat h.ne_nil]
        exact .full <| .quad h hq
      case elided hl hr h =>
        rw [List.append_assoc, List.cons_append, List.cons_append, ← joined_concat hr.ne_nil]
        exact .elided hl (.quad hr hq) <| by omega
    · have h := IsAddress.elided hg (.quad groups_nil hq) <| by omega
      simpa [joined] using h

-- How many colons stand at the end.
def trailing (text : List Char) : Nat :=
  (text.reverse.takeWhile (· = ':')).length

theorem trailing_append (h : text.getLast? ≠ some ':') : trailing (text ++ List.replicate n ':') = n := by
  have hr : ∀ c ∈ List.replicate n ':', decide (c = ':') = true := fun c hc => by
    simpa using List.eq_of_mem_replicate hc
  rw [trailing, List.reverse_append, List.reverse_replicate, List.takeWhile_append_of_pos hr]
  obtain rfl | ⟨t, c, rfl⟩ := List.eq_nil_or_concat text
  · simp
  · have hc : c ≠ ':' := by simpa using h
    simp [hc]

theorem Ends.trailing (h : Ends n head) : trailing head = n := by
  obtain ⟨_, _, hg, _, rfl⟩ := h
  exact trailing_append <| joined_end hg.words

theorem Inner.trailing (h : Inner head) : trailing head = 0 := by
  cases h
  case full ws h =>
    have ht := trailing_append (n := 0) <| joined_end h.words
    simpa using ht
  case elided l r k m hl hr _ =>
    have he : (joined l ++ ':' :: ':' :: joined r).getLast? ≠ some ':' := by
      obtain hn | ⟨t, c, hc⟩ := List.eq_nil_or_concat (joined r)
      · exact absurd hn <| joined_ne_nil hr.words hr.ne_nil
      · have hl := joined_end hr.words
        rw [hc, List.concat_eq_append, List.getLast?_concat] at hl
        rw [hc, List.concat_eq_append, ← List.cons_append, ← List.cons_append, ← List.append_assoc,
          List.getLast?_concat]
        exact hl
    have ht := trailing_append (n := 0) he
    simpa using ht

-- An IPv4 address at the end is read in one way.
theorem quad_unique {P : List Char → Prop} (hq : IsQuad q)
    (h : Body 8 (head ++ ':' :: q) ∨
      ∃ head' q', IsQuad q' ∧ P head' ∧ head ++ ':' :: q = head' ++ ':' :: q') : P head := by
  obtain h | ⟨head', q', hq', hp, he⟩ := h
  · exact absurd (by simp [hq.dot]) h.dot
  · exact (JsString.append_cons_inj hq.colon hq'.colon he).1 ▸ hp

end Forms

end Ipv6Text
