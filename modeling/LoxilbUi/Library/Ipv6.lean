import Mathlib.Data.List.Induction
import Mathlib.Data.List.TakeWhile

-- IPv6 addresses and the one text that is canonical for each.

namespace Ipv6

section Hex

def isHex (c : Char) : Bool :=
  c.isDigit || ('a' ≤ c && c ≤ 'f') || ('A' ≤ c && c ≤ 'F')

def hexValue (c : Char) : Nat :=
  if c.isDigit then c.toNat - '0'.toNat
  else if 'a' ≤ c then c.toNat - 'a'.toNat + 10
  else c.toNat - 'A'.toNat + 10

def hexFold (n : Nat) (l : List Char) : Nat :=
  l.foldl (fun n c => 16 * n + hexValue c) n

-- `parseInt(s, 16)`, of a text that starts with a digit.
def parseHex (l : List Char) : Nat :=
  hexFold 0 <| l.takeWhile isHex

variable {n : Nat} {c : Char}

theorem digitChar_hex : ∀ d < 16, isHex d.digitChar = true ∧ hexValue d.digitChar = d := by
  decide

theorem isHex_of_mem_toDigits (h : c ∈ Nat.toDigits 16 n) : isHex c = true := by
  induction n using Nat.strongRecOn
  case ind n hi =>
    by_cases hn : n < 16
    · rw [Nat.toDigits_of_lt_base hn, List.mem_singleton] at h
      exact h ▸ (digitChar_hex n hn).1
    · rw [Nat.toDigits_of_base_le (by omega) (by omega)] at h
      obtain h | h := List.mem_append.mp h
      · exact hi (n / 16) (by omega) h
      · rw [List.mem_singleton.mp h]
        exact (digitChar_hex _ <| Nat.mod_lt _ <| by omega).1

theorem hexFold_toDigits : hexFold 0 (Nat.toDigits 16 n) = n := by
  induction n using Nat.strongRecOn
  case ind n hi =>
    by_cases hn : n < 16
    · rw [Nat.toDigits_of_lt_base hn]
      simpa [hexFold] using (digitChar_hex n hn).2
    · rw [Nat.toDigits_of_base_le (by omega) (by omega), hexFold, List.foldl_append]
      have hq := hi (n / 16) (by omega)
      rw [hexFold] at hq
      rw [hq, List.foldl_cons, List.foldl_nil, (digitChar_hex _ <| Nat.mod_lt _ <| by omega).2]
      omega

theorem parseHex_toDigits : parseHex (Nat.toDigits 16 n) = n := by
  have hl : (Nat.toDigits 16 n).takeWhile isHex = Nat.toDigits 16 n :=
    List.takeWhile_eq_self_iff.mpr fun _ => isHex_of_mem_toDigits
  rw [parseHex, hl, hexFold_toDigits]

end Hex

section Split

-- `s.split('::')`
def splitDouble : List Char → List (List Char)
  | []          => [[]]
  | [c]         => [[c]]
  | c :: d :: l =>
    if c = ':' ∧ d = ':' then [] :: splitDouble l
    else (splitDouble <| d :: l).modifyHead (c :: ·)

variable {c : Char} {w l : List Char} {ws : List (List Char)}

theorem splitDouble_double : splitDouble (':' :: ':' :: l) = [] :: splitDouble l := by
  simp [splitDouble]

theorem splitDouble_cons (h : c ≠ ':' ∨ ∀ l', l ≠ ':' :: l') :
    splitDouble (c :: l) = (splitDouble l).modifyHead (c :: ·) := by
  cases l
  case nil => rfl
  case cons d l =>
    rw [splitDouble, if_neg]
    rintro ⟨rfl, rfl⟩
    simp at h

theorem splitDouble_word (h : ':' ∉ w) :
    splitDouble (w ++ l) = (splitDouble l).modifyHead (w ++ ·) := by
  induction w
  case nil => simp [← Function.id_def]
  case cons c w hi =>
    obtain ⟨hc, hw⟩ := not_or.mp <| mt List.mem_cons.mpr h
    rw [List.cons_append, splitDouble_cons (.inl (Ne.symm hc)), hi hw, List.modifyHead_modifyHead]
    rfl

-- Words with one colon between them are not cut.
theorem splitDouble_intercalate (h : ∀ w ∈ ws, ':' ∉ w ∧ w ≠ []) :
    splitDouble ([':'].intercalate ws ++ l) =
      (splitDouble l).modifyHead ([':'].intercalate ws ++ ·) := by
  induction ws
  case nil => simp [← Function.id_def]
  case cons w ws hi =>
    obtain ⟨⟨hc, -⟩, hws⟩ := List.forall_mem_cons.mp h
    cases ws
    case nil => simpa using splitDouble_word hc
    case cons v ws =>
      have hv (l' : List Char) : [':'].intercalate (v :: ws) ++ l ≠ ':' :: l' := by
        obtain ⟨hc, hn⟩ := hws v <| .head _
        obtain ⟨x, v, rfl⟩ := List.exists_cons_of_ne_nil hn
        have hx : ':' ≠ x := fun h => hc <| h ▸ List.mem_cons_self
        cases ws <;> simp [List.intercalate, hx.symm]
      rw [List.intercalate_cons_cons, List.append_assoc, List.append_assoc, splitDouble_word hc,
        List.singleton_append, splitDouble_cons (.inr hv), hi hws, List.modifyHead_modifyHead,
        List.modifyHead_modifyHead]
      congr 1
      funext x
      simp

theorem splitDouble_ne_nil (l : List Char) : splitDouble l ≠ [] := by
  induction l using splitDouble.induct
  case case1 => simp [splitDouble]
  case case2 => simp [splitDouble]
  case case3 h _  => rw [splitDouble, if_pos h]; simp
  case case4 h hi => rw [splitDouble, if_neg h]; simpa using hi

theorem splitDouble_pos (l : List Char) : 0 < (splitDouble l).length :=
  List.length_pos_iff.mpr <| splitDouble_ne_nil l

theorem intercalate_splitDouble (l : List Char) : [':', ':'].intercalate (splitDouble l) = l := by
  induction l using splitDouble.induct
  case case1 => rfl
  case case2 => simp [splitDouble]
  case case3 c d l h hi =>
    obtain ⟨p, ps, hp⟩ := List.exists_cons_of_ne_nil <| splitDouble_ne_nil l
    rw [hp] at hi
    rw [splitDouble, if_pos h, hp, List.intercalate_cons_cons, hi, h.1, h.2]
    rfl
  case case4 c d l h hi =>
    obtain ⟨p, ps, hp⟩ := List.exists_cons_of_ne_nil <| splitDouble_ne_nil (d :: l)
    rw [hp] at hi
    rw [splitDouble, if_neg h, hp, List.modifyHead_cons]
    cases ps
    case nil => simpa using hi
    case cons p' ps =>
      rw [List.intercalate_cons_cons] at hi ⊢
      simp only [List.cons_append, hi]

theorem length_splitDouble_append (l r : List Char) :
    (splitDouble l).length ≤ (splitDouble (l ++ r)).length := by
  induction l using splitDouble.induct
  case case1 => exact splitDouble_pos r
  case case2 c => exact splitDouble_pos (c :: r)
  case case3 c d l h hi =>
    rw [List.cons_append, List.cons_append, splitDouble, if_pos h, splitDouble, if_pos h]
    simpa using hi
  case case4 c d l h hi =>
    rw [List.cons_append, List.cons_append, splitDouble, if_neg h, splitDouble, if_neg h]
    simpa using hi

-- Two colons in a row are found just if the text is cut.
theorem double_infix_iff : [':', ':'] <:+: l ↔ 1 < (splitDouble l).length := by
  constructor
  case mp =>
    rintro ⟨s, t, rfl⟩
    induction s using splitDouble.induct
    case case1 =>
      have := splitDouble_pos t
      simpa [splitDouble] using this
    case case2 c =>
      by_cases hc : c = ':'
      · have := splitDouble_pos (':' :: t)
        simpa [splitDouble, hc] using this
      · have := splitDouble_pos t
        simpa [splitDouble, hc] using this
    case case3 c d l h hi =>
      simp only [List.cons_append, List.append_assoc] at hi ⊢
      rw [splitDouble, if_pos h, List.length_cons]
      omega
    case case4 c d l h hi =>
      simp only [List.cons_append, List.append_assoc] at hi ⊢
      rw [splitDouble, if_neg h, List.length_modifyHead]
      exact hi
  case mpr =>
    intro h
    rw [← intercalate_splitDouble l]
    match hs : splitDouble l, h with
    | p :: q :: ps, _ =>
      rw [List.intercalate_cons_cons]
      exact List.infix_append _ _ _

end Split

section Text

structure Address where
  units  : List Nat
  length : units.length = 8
  bound  : ∀ u ∈ units, u < 0x10000

-- Units in hexadecimal with colons between them.
def words (units : List Nat) : List Char :=
  [':'].intercalate <| units.map (Nat.toDigits 16)

-- How many zeros stand at the place `i`.
def zerosAt (units : List Nat) (i : Nat) : Nat :=
  ((units.drop i).takeWhile (· = 0)).length

-- The first of the longest runs of zeros, as the place where it begins and its length.
def longestRun (units : List Nat) : Nat × Nat :=
  (List.range units.length).foldl
    (fun best i => if best.2 < zerosAt units i then (i, zerosAt units i) else best) (0, 0)

-- The longest run of zeros, if it is one of two or more, is left out between two colons.
def textOf (units : List Nat) : List Char :=
  let (i, n) := longestRun units
  if n < 2 then words units
  else words (units.take i) ++ ':' :: ':' :: words (units.drop <| i + n)

def Address.text (address : Address) : String :=
  .ofList <| textOf address.units

variable {units : List Nat} {i : Nat}

theorem word_plain {w : List Char} (h : w ∈ units.map (Nat.toDigits 16)) : ':' ∉ w ∧ w ≠ [] := by
  obtain ⟨u, -, rfl⟩ := List.mem_map.mp h
  refine ⟨fun hc => ?_, Nat.toDigits_ne_nil⟩
  have hx := isHex_of_mem_toDigits hc
  revert hx
  decide

theorem splitOn_words (h : units ≠ []) :
    (words units).splitOn ':' = units.map (Nat.toDigits 16) :=
  List.splitOn_intercalate _ (fun _ hw => (word_plain hw).1) <| by simpa using h

theorem words_ne_nil (h : units ≠ []) : words units ≠ [] := by
  obtain ⟨u, units, rfl⟩ := List.exists_cons_of_ne_nil h
  have hu : Nat.toDigits 16 u ≠ [] := Nat.toDigits_ne_nil
  cases units <;> simp [words, List.intercalate, hu]

theorem splitDouble_words {l : List Char} :
    splitDouble (words units ++ l) = (splitDouble l).modifyHead (words units ++ ·) :=
  splitDouble_intercalate fun _ => word_plain

theorem splitDouble_words_self : splitDouble (words units) = [words units] := by
  rw [← List.append_nil (words units), splitDouble_words]
  simp [splitDouble]

theorem zerosAt_spec :
    units.drop i = List.replicate (zerosAt units i) 0 ++ units.drop (i + zerosAt units i) := by
  have hs := List.takeWhile_append_dropWhile (p := (decide <| · = 0)) (l := units.drop i)
  have hd : units.drop (i + zerosAt units i) = (units.drop i).dropWhile (decide <| · = 0) := by
    rw [← List.drop_drop, zerosAt]
    nth_rewrite 2 [← hs]
    exact List.drop_left
  have hz : (units.drop i).takeWhile (decide <| · = 0) = List.replicate (zerosAt units i) 0 :=
    List.eq_replicate_iff.mpr ⟨rfl, fun u hu => by simpa using List.mem_takeWhile_imp hu⟩
  rw [hd, ← hz, hs]

theorem longestRun_zeros : zerosAt units (longestRun units).1 = (longestRun units).2 ∨
    (longestRun units).2 = 0 := by
  rw [longestRun]
  induction List.range units.length using List.reverseRecOn
  case nil => exact .inr rfl
  case append_singleton l i hi =>
    rw [List.foldl_append, List.foldl_cons, List.foldl_nil]
    split
    case isTrue  => exact .inl rfl
    case isFalse => exact hi

-- Either way the text is made of the units, with zeros in the place of what it leaves out.
theorem textOf_cases (units : List Nat) : textOf units = words units ∨
    ∃ left right n, units = left ++ List.replicate n 0 ++ right ∧
      textOf units = words left ++ ':' :: ':' :: words right := by
  by_cases h : (longestRun units).2 < 2
  · exact .inl <| if_pos h
  · refine .inr ⟨units.take (longestRun units).1,
      units.drop ((longestRun units).1 + (longestRun units).2), (longestRun units).2, ?_, if_neg h⟩
    have hz : zerosAt units (longestRun units).1 = (longestRun units).2 :=
      longestRun_zeros.resolve_right <| by omega
    nth_rewrite 1 [← List.take_append_drop (longestRun units).1 units]
    rw [zerosAt_spec, hz, List.append_assoc]

end Text

end Ipv6
