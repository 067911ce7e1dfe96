import Mathlib.Algebra.Order.Field.Rat
import Mathlib.Data.List.TakeWhile
import Mathlib.Tactic.FieldSimp
import Mathlib.Tactic.Ring

-- Numbers of the language. A finite one is held as the decimal that `Number::toString` prints of it:
-- the shortest mantissa, and the power of ten it stands at. Zero has one sign only.

structure Decimal where
  mantissa : Int
  exponent : Int
  normal   : if mantissa = 0 then exponent = 0 else ¬(10 ∣ mantissa)
  deriving DecidableEq

inductive JsNumber
  | nan
  | infinity (negative : Bool)
  | finite (d : Decimal)
  deriving DecidableEq

namespace Decimal

-- Moves the trailing zeros of a mantissa into the exponent.
def strip : Nat → Int → Int → Int × Int
  | 0, m, e     => (m, e)
  | k + 1, m, e => if 10 ∣ m then strip k (m / 10) (e + 1) else (m, e)

theorem strip_fst_not_dvd {k : Nat} {m e : Int} (hm : m ≠ 0) (hk : m.natAbs ≤ k) :
    ¬10 ∣ (strip k m e).1 := by
  induction k generalizing m e
  case zero => omega
  case succ k hi =>
    simp only [strip]
    split
    · exact hi (by omega) (by omega)
    · assumption

-- The decimal `m × 10 ^ e`.
def ofScaled (m e : Int) : Decimal :=
  if hm : m = 0 then ⟨0, 0, by simp⟩
  else
    ⟨(strip m.natAbs m e).1, (strip m.natAbs m e).2, by
      have h := @strip_fst_not_dvd m.natAbs m e hm (Nat.le_refl _)
      split
      case isTrue h₀  => simp [h₀] at h
      case isFalse h₀ => exact h⟩

def ofInt (m : Int) : Decimal :=
  ofScaled m 0

def value (d : Decimal) : ℚ :=
  d.mantissa * 10 ^ d.exponent

-- The two mantissas over the smaller of the two powers of ten.
def aligned (a b : Decimal) : Int × Int :=
  let e := min a.exponent b.exponent
  (a.mantissa * 10 ^ (a.exponent - e).toNat, b.mantissa * 10 ^ (b.exponent - e).toNat)

def lt (a b : Decimal) : Bool :=
  (aligned a b).1 < (aligned a b).2

-- The exact sum.
def add (a b : Decimal) : Decimal :=
  ofScaled ((aligned a b).1 + (aligned a b).2) (min a.exponent b.exponent)

def max (a b : Decimal) : Decimal :=
  if a.lt b then b else a

section Order

variable {a b : Decimal}

theorem strip_value {k : Nat} {m e : Int} :
    ((strip k m e).1 : ℚ) * 10 ^ (strip k m e).2 = m * 10 ^ e := by
  induction k generalizing m e
  case zero => rfl
  case succ k hi =>
    simp only [strip]
    split
    case isFalse => rfl
    case isTrue hd =>
      obtain ⟨n, rfl⟩ := hd
      rw [hi, Int.mul_ediv_cancel_left n (by decide), zpow_add₀ (by norm_num), zpow_one]
      push_cast
      ring

theorem value_ofScaled (m e : Int) : (ofScaled m e).value = m * 10 ^ e := by
  simp only [ofScaled]
  split
  case isTrue hm  => simp [value, hm]
  case isFalse hm => exact strip_value

@[simp]
theorem value_ofInt (m : Int) : (ofInt m).value = m := by
  simp [ofInt, value_ofScaled]

theorem value_aligned :
    a.value = (aligned a b).1 * 10 ^ min a.exponent b.exponent ∧
    b.value = (aligned a b).2 * 10 ^ min a.exponent b.exponent := by
  have hp (x y : Int) (h : y ≤ x) : (10 : ℚ) ^ x = 10 ^ (x - y).toNat * 10 ^ y := by
    rw [← zpow_natCast, Int.toNat_of_nonneg (by omega), ← zpow_add₀ (by norm_num)]
    congr 1
    omega
  constructor
  case left =>
    rw [value, hp a.exponent (min a.exponent b.exponent) (min_le_left _ _), ← mul_assoc]
    simp [aligned]
  case right =>
    rw [value, hp b.exponent (min a.exponent b.exponent) (min_le_right _ _), ← mul_assoc]
    simp [aligned]

theorem lt_iff : a.lt b = true ↔ a.value < b.value := by
  have ⟨ha, hb⟩ := @value_aligned a b
  rw [lt, decide_eq_true_eq, ha, hb, mul_lt_mul_iff_left₀ (zpow_pos (by norm_num) _)]
  exact_mod_cast Iff.rfl

@[simp]
theorem value_add : (a.add b).value = a.value + b.value := by
  have ⟨ha, hb⟩ := @value_aligned a b
  rw [add, value_ofScaled, ha, hb]
  push_cast
  ring

@[simp]
theorem value_max : (a.max b).value = Max.max a.value b.value := by
  rw [max]
  split
  case isTrue h  => exact (max_eq_right (lt_iff.mp h).le).symm
  case isFalse h => exact (max_eq_left <| not_lt.mp fun hl => h <| lt_iff.mpr hl).symm

theorem ofInt_injective : Function.Injective ofInt := fun m n h => by
  have := congrArg value h
  simpa using this
end Order

-- `Number::toString` of a number `m × 10 ^ e` that is not negative.
def digitsText (m : Nat) (e : Int) : List Char :=
  let digits := Nat.toDigits 10 m
  let n := digits.length + e
  if digits.length ≤ n ∧ n ≤ 21 then digits ++ List.replicate e.toNat '0'
  else if 0 < n ∧ n ≤ 21 then digits.take n.toNat ++ '.' :: digits.drop n.toNat
  else if -6 < n ∧ n ≤ 0 then '0' :: '.' :: (List.replicate (-n).toNat '0' ++ digits)
  else
    let point := if digits.length = 1 then [] else ['.']
    digits.take 1 ++ point ++ digits.drop 1 ++
      'e' :: (if n - 1 < 0 then '-' else '+') :: Nat.toDigits 10 (n - 1).natAbs

def text (d : Decimal) : String :=
  .ofList <| if d.mantissa < 0 then '-' :: digitsText d.mantissa.natAbs d.exponent
    else digitsText d.mantissa.natAbs d.exponent

-- The text before and after the first `c`.
def cut (c : Char) (t : List Char) : List Char × List Char :=
  (t.takeWhile (· ≠ c), (t.dropWhile (· ≠ c)).tail)

def exponentOf : List Char → Int
  | '-' :: ds => -Nat.ofDigitChars 10 ds 0
  | _ :: ds   => Nat.ofDigitChars 10 ds 0
  | []        => 0

def denotes (whole fraction : List Char) (e : Int) : ℚ :=
  Nat.ofDigitChars 10 (whole ++ fraction) 0 * 10 ^ (e - fraction.length)

-- The number that a text without a sign denotes.
def valueOf (t : List Char) : ℚ :=
  let mantissa := cut '.' (cut 'e' t).1
  denotes mantissa.1 mantissa.2 (exponentOf (cut 'e' t).2)

section ValueOf

variable {c : Char} {l r ex : List Char}

theorem cut_append (h : ∀ x ∈ l, x ≠ c) : cut c (l ++ c :: r) = (l, r) := by
  have h : ∀ x ∈ l, decide (x ≠ c) = true := by simpa using h
  rw [cut, List.takeWhile_append_of_pos h, List.dropWhile_append_of_pos h]
  simp

theorem cut_self (h : ∀ x ∈ l, x ≠ c) : cut c l = (l, []) := by
  have h : ∀ x ∈ l, decide (x ≠ c) = true := by simpa using h
  rw [cut, List.takeWhile_eq_self_iff.mpr h, List.dropWhile_eq_nil_iff.mpr h, List.tail_nil]

def AllDigits (l : List Char) : Prop :=
  ∀ c ∈ l, c.isDigit = true

theorem AllDigits.ne (h : AllDigits l) (hc : c.isDigit = false) : ∀ x ∈ l, x ≠ c := by
  rintro x hx rfl
  simp [h x hx] at hc

theorem allDigits_append : AllDigits (l ++ r) ↔ AllDigits l ∧ AllDigits r := by
  simp only [AllDigits, List.mem_append]
  exact ⟨fun h => ⟨fun c hc => h c (.inl hc), fun c hc => h c (.inr hc)⟩,
    fun h c hc => hc.elim (h.left c) (h.right c)⟩

theorem allDigits_toDigits (n : Nat) : AllDigits (Nat.toDigits 10 n) :=
  fun _ hc => Nat.isDigit_of_mem_toDigits (by decide) (by decide) hc

theorem allDigits_replicate (n : Nat) : AllDigits (List.replicate n '0') := by
  intro c hc
  rw [List.eq_of_mem_replicate hc]
  decide

theorem point_ne_e (hl : AllDigits l) (hr : AllDigits r) : ∀ x ∈ l ++ '.' :: r, x ≠ 'e' := by
  intro x hx
  simp only [List.mem_append, List.mem_cons] at hx
  obtain hx | rfl | hx := hx
  · exact hl.ne (by decide) x hx
  · decide
  · exact hr.ne (by decide) x hx

theorem valueOf_whole (hl : AllDigits l) : valueOf l = denotes l [] 0 := by
  simp only [valueOf, cut_self (hl.ne (show 'e'.isDigit = false by decide)),
    cut_self (hl.ne (show '.'.isDigit = false by decide)), exponentOf]

theorem valueOf_point (hl : AllDigits l) (hr : AllDigits r) :
    valueOf (l ++ '.' :: r) = denotes l r 0 := by
  simp only [valueOf, cut_self (point_ne_e hl hr),
    cut_append (hl.ne (show '.'.isDigit = false by decide)), exponentOf]

theorem valueOf_exponent (hl : AllDigits l) :
    valueOf (l ++ 'e' :: ex) = denotes l [] (exponentOf ex) := by
  simp only [valueOf, cut_append (hl.ne (show 'e'.isDigit = false by decide)),
    cut_self (hl.ne (show '.'.isDigit = false by decide))]

theorem valueOf_point_exponent (hl : AllDigits l) (hr : AllDigits r) :
    valueOf (l ++ '.' :: r ++ 'e' :: ex) = denotes l r (exponentOf ex) := by
  simp only [valueOf, cut_append (point_ne_e hl hr),
    cut_append (hl.ne (show '.'.isDigit = false by decide))]

theorem exponentOf_sign {n : Int} :
    exponentOf ((if n < 0 then '-' else '+') :: Nat.toDigits 10 n.natAbs) = n := by
  split
  case isTrue  => simp only [exponentOf, Nat.ofDigitChars_ten_toDigits]; omega
  case isFalse =>
    have : exponentOf ('+' :: Nat.toDigits 10 n.natAbs) = n.natAbs := by
      rw [exponentOf, Nat.ofDigitChars_ten_toDigits]
      simp
    omega

end ValueOf

theorem digitsText_value (m : Nat) (e : Int) : valueOf (digitsText m e) = m * 10 ^ e := by
  have hd := allDigits_toDigits m
  have hm : Nat.ofDigitChars 10 (Nat.toDigits 10 m) 0 = m := Nat.ofDigitChars_ten_toDigits
  have hp : 0 < (Nat.toDigits 10 m).length := Nat.length_toDigits_pos
  simp only [digitsText]
  generalize Nat.toDigits 10 m = ds at hd hm hp
  split
  case isTrue h =>
    rw [valueOf_whole (allDigits_append.mpr ⟨hd, allDigits_replicate _⟩)]
    have he : ((e.toNat : Int) : Int) = e := Int.toNat_of_nonneg (by omega)
    simp only [denotes, List.append_nil, Nat.ofDigitChars_append, hm,
      Nat.ofDigitChars_replicate_zero, List.length_nil]
    nth_rewrite 2 [← he]
    push_cast
    rw [zpow_natCast]
    simp [mul_comm]
  case isFalse h =>
    split
    case isTrue h₁ =>
      rw [← List.take_append_drop (ds.length + e).toNat ds, allDigits_append] at hd
      obtain ⟨hl, hr⟩ := hd
      rw [valueOf_point hl hr, denotes, List.take_append_drop, hm, List.length_drop]
      congr 2
      omega
    case isFalse h₁ =>
      split
      case isTrue h₂ =>
        have hz : AllDigits ['0'] := by simp [AllDigits]
        have hr := allDigits_append.mpr ⟨allDigits_replicate (-(ds.length + e)).toNat, hd⟩
        have hv := valueOf_point hz hr
        rw [List.singleton_append] at hv
        have h₀ : Nat.ofDigitChars 10 ['0'] 0 = 0 := rfl
        rw [hv, denotes, ← List.append_assoc, Nat.ofDigitChars_append, Nat.ofDigitChars_append, h₀]
        simp only [Nat.ofDigitChars_replicate_zero, Nat.mul_zero, hm, List.length_append,
          List.length_replicate]
        congr 2
        push_cast
        omega
      case isFalse h₂ =>
        have hl : 1 ≤ ds.length := hp
        split
        case isTrue h₃ =>
          rw [List.append_nil, List.take_append_drop, valueOf_exponent hd, exponentOf_sign, denotes,
            List.append_nil, hm, h₃]
          simp
        case isFalse h₃ =>
          have hd' := hd
          rw [← List.take_append_drop 1 ds, allDigits_append] at hd'
          rw [List.append_assoc (ds.take 1), List.singleton_append,
            valueOf_point_exponent hd'.left hd'.right, exponentOf_sign, denotes,
            List.take_append_drop, hm, List.length_drop]
          congr 2
          omega

variable {a b : Decimal}

theorem mantissa_of_value_eq (h : a.value = b.value) (he : a.exponent ≤ b.exponent) :
    a.mantissa = b.mantissa * 10 ^ (b.exponent - a.exponent).toNat := by
  have hz : (10 : ℚ) ^ a.exponent ≠ 0 := zpow_ne_zero _ (by norm_num)
  have hn : ((b.exponent - a.exponent).toNat : Int) = b.exponent - a.exponent :=
    Int.toNat_of_nonneg (by omega)
  have hq : (a.mantissa : ℚ) = b.mantissa * 10 ^ (b.exponent - a.exponent).toNat := by
    rw [← zpow_natCast, hn, zpow_sub₀ (by norm_num), mul_div_assoc', eq_div_iff hz]
    exact h
  exact_mod_cast hq

theorem eq_of_value_eq (h : a.value = b.value) : a = b := by
  wlog he : a.exponent ≤ b.exponent
  · exact (this h.symm (by omega)).symm
  have hm := mantissa_of_value_eq h he
  obtain ⟨m, e, hn⟩ := a
  obtain ⟨m', e', hn'⟩ := b
  simp only at he hm hn hn'
  by_cases hee : e = e'
  · simp [hm, hee]
  · obtain ⟨k, hk⟩ : ∃ k, (e' - e).toNat = k + 1 := ⟨(e' - e).toNat - 1, by omega⟩
    have hd : 10 ∣ m := by
      rw [hm, hk, pow_succ, ← mul_assoc]
      exact Int.dvd_mul_left ..
    have h₀ : m = 0 := by
      by_contra h₀
      simp [h₀, hd] at hn
    have h₁ : m' = 0 := by simpa [h₀] using hm.symm
    simp only [h₀, if_true] at hn
    simp only [h₁, if_true] at hn'
    simp [h₀, h₁, hn, hn']

theorem digitsText_head (m : Nat) (e : Int) :
    ∃ c t, digitsText m e = c :: t ∧ c.isDigit = true := by
  have hd := allDigits_toDigits m
  obtain ⟨d, ds, hl⟩ := List.exists_cons_of_ne_nil (@Nat.toDigits_ne_nil m 10)
  simp only [digitsText, hl] at hd ⊢
  have hc : d.isDigit = true := hd d (by simp)
  split
  · exact ⟨d, _, rfl, hc⟩
  · split
    case isTrue h =>
      obtain ⟨k, hk⟩ := Nat.exists_eq_succ_of_ne_zero (show ((d :: ds).length + e).toNat ≠ 0 by omega)
      rw [hk]
      exact ⟨d, _, rfl, hc⟩
    case isFalse =>
      split
      · exact ⟨'0', _, rfl, rfl⟩
      · split <;> exact ⟨d, _, rfl, hc⟩

-- What the text of a number is written with.
def IsNumeralChar (c : Char) : Prop :=
  c.isDigit = true ∨ c ∈ ['.', 'e', '+', '-']

theorem digitsText_chars {m : Nat} {e : Int} {c : Char} (h : c ∈ digitsText m e) :
    IsNumeralChar c := by
  have hd {n : Nat} (h : c ∈ Nat.toDigits 10 n) : IsNumeralChar c :=
    .inl <| allDigits_toDigits n c h
  have hz {n : Nat} (h : c ∈ List.replicate n '0') : IsNumeralChar c :=
    .inl <| allDigits_replicate n c h
  simp only [digitsText] at h
  split at h
  · exact (List.mem_append.mp h).elim hd hz
  · split at h
    · simp only [List.mem_append, List.mem_cons] at h
      obtain h | rfl | h := h
      · exact hd <| List.mem_of_mem_take h
      · exact .inr <| by decide
      · exact hd <| List.mem_of_mem_drop h
    · split at h
      · simp only [List.mem_append, List.mem_cons] at h
        obtain rfl | rfl | h | h := h
        · exact .inl rfl
        · exact .inr <| by decide
        · exact hz h
        · exact hd h
      · simp only [List.mem_append, List.mem_cons] at h
        obtain ((h | h) | h) | rfl | h | h := h
        · exact hd <| List.mem_of_mem_take h
        · split at h <;> simp at h
          subst h
          exact .inr <| by decide
        · exact hd <| List.mem_of_mem_drop h
        · exact .inr <| by decide
        · split at h <;> subst h <;> exact .inr <| by decide
        · exact hd h

theorem text_chars {d : Decimal} {c : Char} (h : c ∈ d.text.toList) : IsNumeralChar c := by
  simp only [text, String.toList_ofList] at h
  split at h
  case isTrue =>
    obtain rfl | h := List.mem_cons.mp h
    · exact .inr <| by decide
    · exact digitsText_chars h
  case isFalse => exact digitsText_chars h

-- As `valueOf`, of a text that may have a sign.
def signedValueOf : List Char → ℚ
  | '-' :: t => -valueOf t
  | t        => valueOf t

theorem signedValueOf_text (d : Decimal) : signedValueOf d.text.toList = d.value := by
  simp only [text, String.toList_ofList, value]
  split
  case isTrue h =>
    have hm : ((d.mantissa.natAbs : Int) : ℚ) = -d.mantissa := by
      rw [Int.natCast_natAbs, abs_of_neg h]
      push_cast
      rfl
    rw [signedValueOf, digitsText_value, ← Int.cast_natCast, hm]
    ring
  case isFalse h =>
    have hm : ((d.mantissa.natAbs : Int) : ℚ) = d.mantissa := by
      rw [Int.natCast_natAbs, abs_of_nonneg (not_lt.mp h)]
    have hv := digitsText_value d.mantissa.natAbs d.exponent
    obtain ⟨c, t, ht, hc⟩ := digitsText_head d.mantissa.natAbs d.exponent
    rw [ht] at hv ⊢
    have hne : c ≠ '-' := by
      rintro rfl
      contradiction
    rw [signedValueOf, hv, ← Int.cast_natCast, hm]
    intro t' h'
    exact hne (List.cons.inj h').1

theorem text_injective : Function.Injective text := fun a b h =>
  eq_of_value_eq <| by rw [← signedValueOf_text, ← signedValueOf_text, h]

end Decimal

namespace JsNumber

instance (n : Nat) : OfNat JsNumber n where
  ofNat := .finite <| .ofInt n

instance : Neg JsNumber where
  neg
    | nan        => nan
    | infinity b => infinity !b
    | finite d   => finite ⟨-d.mantissa, d.exponent, by simpa using d.normal⟩

-- `===` on numbers.
def strictEq : JsNumber → JsNumber → Bool
  | nan, _ => false
  | a, b   => a = b

theorem strictEq_comm {m n : JsNumber} : m.strictEq n = n.strictEq m := by
  cases m <;> cases n <;> simp [strictEq, eq_comm]

theorem strictEq_zero_iff {n : JsNumber} : n.strictEq 0 = true ↔ n = 0 := by
  cases n <;> simp [strictEq]

-- `<`
def lt : JsNumber → JsNumber → Bool
  | nan, _ | _, nan                => false
  | infinity true, b               => b ≠ infinity true
  | infinity false, _              => false
  | finite _, infinity negative    => !negative
  | finite a, finite b             => a.lt b

def toText : JsNumber → String
  | nan            => "NaN"
  | infinity true  => "-Infinity"
  | infinity false => "Infinity"
  | finite d       => d.text

theorem toText_chars {n : JsNumber} {c : Char} (h : c ∈ n.toText.toList) :
    Decimal.IsNumeralChar c ∨ c ∈ "NaN-Infinity".toList := by
  cases n
  case finite d     => exact .inl <| Decimal.text_chars h
  case infinity neg => cases neg <;> exact .inr <| by revert h; simp [toText]; tauto
  case nan          => exact .inr <| by revert h; simp [toText]; tauto

theorem text_ne {d : Decimal} {t : String} (h : 'N' ∈ t.toList ∨ 'I' ∈ t.toList) : d.text ≠ t := by
  rintro rfl
  obtain h | h := h <;> obtain h | h := Decimal.text_chars h <;> revert h <;> decide

theorem toText_injective : Function.Injective toText := by
  intro a b h
  match a, b with
  | nan, nan                   => rfl
  | nan, infinity b            => cases b <;> simp [toText] at h
  | infinity a, nan            => cases a <;> simp [toText] at h
  | infinity a, infinity b     => cases a <;> cases b <;> first | rfl | simp [toText] at h
  | finite a, finite b         => exact congrArg finite <| Decimal.text_injective h
  | nan, finite d              => exact absurd h.symm <| text_ne <| .inl (by decide)
  | finite d, nan              => exact absurd h <| text_ne <| .inl (by decide)
  | infinity true, finite d    => exact absurd h.symm <| text_ne <| .inr (by decide)
  | infinity false, finite d   => exact absurd h.symm <| text_ne <| .inr (by decide)
  | finite d, infinity true    => exact absurd h <| text_ne <| .inr (by decide)
  | finite d, infinity false   => exact absurd h <| text_ne <| .inr (by decide)

theorem toText_ne_empty {n : JsNumber} : n.toText ≠ "" := by
  cases n
  case nan          => decide
  case infinity neg => cases neg <;> decide
  case finite d     =>
    obtain ⟨c, t, h, -⟩ := Decimal.digitsText_head d.mantissa.natAbs d.exponent
    rw [toText, Decimal.text, h]
    intro he
    have he := congrArg String.toList he
    split at he <;> simp at he

theorem strictEq_iff {m n : JsNumber} : m.strictEq n = true ↔ m = n ∧ m ≠ nan := by
  cases m <;> simp [strictEq]

theorem not_lt_nan {n : JsNumber} : n.lt nan = false := by
  cases n <;> simp [lt]

def isInteger : JsNumber → Bool
  | finite d => 0 ≤ d.exponent
  | _        => false

-- The whole part, of a finite number.
def whole : JsNumber → Int
  | finite d => if 0 ≤ d.exponent then d.mantissa * 10 ^ d.exponent.toNat
    else d.mantissa.tdiv (10 ^ (-d.exponent).toNat)
  | _        => 0

-- The double nearest to a natural number, a tie going to the even one; none past the largest.
def roundToDouble (n : Nat) : Option Nat :=
  let ulp := 2 ^ (n.log2 - 52)
  let q := n / ulp
  let r := n % ulp
  let q := if 2 * r > ulp || (2 * r = ulp && q % 2 = 1) then q + 1 else q
  if q * ulp < 2 ^ 1024 then some (q * ulp) else none

-- The multiple of `10 ^ j` that stands for the double `v`, the nearest one if there are two.
def standsFor (v j : Nat) : Option Nat :=
  let down := v / 10 ^ j * 10 ^ j
  let up := down + 10 ^ j
  match roundToDouble down == some v, roundToDouble up == some v with
  | true, false  => some down
  | false, true  => some up
  | true, true   =>
    if 2 * v < down + up || (2 * v = down + up && v / 10 ^ j % 2 = 0) then some down else some up
  | false, false => none

-- The shortest decimal that stands for the double `v`.
def shortest (v : Nat) : Nat :=
  ((List.range (Nat.toDigits 10 v).length).reverse.findSome? (standsFor v)).getD v

-- The number nearest to a natural one.
def nearest (n : Nat) : JsNumber :=
  match roundToDouble n with
  | some v => finite <| .ofInt <| shortest v
  | none   => infinity false

-- `Number(text)` of a text of digits.
def ofDigits (digits : List Char) : JsNumber :=
  nearest <| Nat.ofDigitChars 10 digits 0

theorem ofDigits_congr {p q : List Char}
    (h : Nat.ofDigitChars 10 p 0 = Nat.ofDigitChars 10 q 0) : ofDigits p = ofDigits q :=
  congrArg nearest h

theorem ofDigits_zero : ofDigits ['0'] = 0 := by
  decide +kernel

end JsNumber

example : (1250000 : JsNumber).toText = "1250000" := by decide
example : (JsNumber.finite <| .ofScaled (-125) (-3)).toText = "-0.125" := by decide
example : (JsNumber.finite <| .ofScaled 15 21).toText = "1.5e+22" := by decide
example : (JsNumber.ofDigits "0009007199254740993".toList).toText = "9007199254740992" := by
  decide +kernel
