import Mathlib.Algebra.Order.Floor.Semiring
import Mathlib.Data.Int.Log
import Mathlib.Data.Rat.Floor
import Mathlib.Data.Sign.Basic
import Mathlib.Tactic.Linarith
import Mathlib.Tactic.Positivity
import LoxilbUi.Library.JsNumber

-- The product of two numbers, rounded as doubles are.

namespace JsNumber

-- The double nearest to a number, a tie going to the even one; none past the largest.
def nearestDouble (q : ℚ) : Option ℚ :=
  if q = 0 then some 0
  else
    let ulp : ℚ := 2 ^ max (Int.log 2 |q| - 52) (-1074)
    let down := ⌊|q| / ulp⌋₊
    let rest := |q| / ulp - down
    let units := if 1 / 2 < rest ∨ rest = 1 / 2 ∧ down % 2 = 1 then down + 1 else down
    if units * ulp < 2 ^ 1024 then some (if q < 0 then -(units * ulp) else units * ulp) else none

-- The decimal of `k + 1` digits that stands for the double `v`, the nearest one if there are two.
def standIn (v : ℚ) (k : Nat) : Option Decimal :=
  let e : Int := Int.log 10 |v| - k
  let down := ⌊|v| / 10 ^ e⌋₊
  let decimal (m : Nat) : Decimal := .ofScaled (if v < 0 then -m else m) e
  let stands (m : Nat) : Bool := nearestDouble (decimal m).value = some v
  let rest := |v| / 10 ^ e - down
  match stands down, stands (down + 1) with
  | true, false  => some (decimal down)
  | false, true  => some (decimal <| down + 1)
  | true, true   =>
    if rest < 1 / 2 ∨ rest = 1 / 2 ∧ down % 2 = 0 then some (decimal down) else some (decimal <| down + 1)
  | false, false => none

-- Seventeen digits stand for every double.
def ofRat (q : ℚ) : JsNumber :=
  match nearestDouble q with
  | none   => infinity (q < 0)
  | some v => finite <| if v = 0 then .ofInt 0 else ((List.range 17).findSome? (standIn v)).getD (.ofInt 0)

-- The double that a finite number is.
def double (d : Decimal) : ℚ :=
  (nearestDouble d.value).getD d.value

-- `*`
def mul : JsNumber → JsNumber → JsNumber
  | nan, _ | _, nan                               => nan
  | infinity a, infinity b                        => infinity (a != b)
  | infinity a, finite d | finite d, infinity a   => if d.mantissa = 0 then nan else infinity (a != (d.mantissa < 0))
  | finite a, finite b                            => ofRat <| double a * double b

section Nearest

variable {q v : ℚ}

-- The step between the doubles about a number.
def ulp (q : ℚ) : ℚ :=
  2 ^ max (Int.log 2 |q| - 52) (-1074)

def unitsOf (q : ℚ) : Nat :=
  let down := ⌊|q| / ulp q⌋₊
  let rest := |q| / ulp q - down
  if 1 / 2 < rest ∨ rest = 1 / 2 ∧ down % 2 = 1 then down + 1 else down

theorem nearestDouble_of_ne (h : q ≠ 0) : nearestDouble q =
    if unitsOf q * ulp q < 2 ^ 1024 then some (if q < 0 then -(unitsOf q * ulp q) else unitsOf q * ulp q) else none := by
  rw [nearestDouble, if_neg h]
  rfl

theorem ulp_pos : 0 < ulp q :=
  zpow_pos two_pos _

theorem unitsOf_eq_zero_iff : unitsOf q = 0 ↔ |q| / ulp q ≤ 1 / 2 := by
  have hq : 0 ≤ |q| / ulp q := div_nonneg (abs_nonneg q) ulp_pos.le
  constructor
  case mp =>
    intro h
    rw [unitsOf] at h
    split at h
    case isTrue     => cases h
    case isFalse hr =>
      rw [h, Nat.cast_zero, sub_zero] at hr
      exact not_lt.mp fun hl => hr <| .inl hl
  case mpr =>
    intro h
    have hd : ⌊|q| / ulp q⌋₊ = 0 := Nat.floor_eq_zero.mpr <| h.trans_lt <| by norm_num
    rw [unitsOf, hd, Nat.cast_zero, sub_zero, if_neg]
    rintro (hl | ⟨-, hl⟩)
    · exact hl.not_ge h
    · cases hl

-- Only what is at most half of the smallest double is rounded to zero.
theorem unitsOf_eq_zero_iff_le : unitsOf q = 0 ↔ |q| ≤ 2 ^ (-1075 : ℤ) := by
  have hh : (2 : ℚ) ^ (-1074 : ℤ) = 2 ^ (-1075 : ℤ) * 2 := zpow_add_one₀ two_ne_zero (-1075)
  rw [unitsOf_eq_zero_iff, div_le_iff₀ ulp_pos, ulp]
  obtain hl | hl := le_total (Int.log 2 |q| - 52) (-1074)
  · rw [max_eq_right hl, hh, mul_comm, mul_assoc, mul_one_div_cancel two_ne_zero, mul_one]
  · rw [max_eq_left hl]
    by_cases hq : q = 0
    · simp only [hq, abs_zero]
      exact iff_of_true (mul_nonneg one_half_pos.le (zpow_pos two_pos _).le) (zpow_pos two_pos _).le
    · have hp : (2 : ℚ) ^ Int.log 2 |q| ≤ |q| := Int.zpow_log_le_self one_lt_two <| abs_pos.mpr hq
      have hm : (2 : ℚ) ^ (Int.log 2 |q| - 52) < 2 ^ Int.log 2 |q| := zpow_lt_zpow_right₀ one_lt_two <| by omega
      have hn : (2 : ℚ) ^ (-1075 : ℤ) < 2 ^ Int.log 2 |q| := zpow_lt_zpow_right₀ one_lt_two <| by omega
      have hu : (0 : ℚ) < 2 ^ (Int.log 2 |q| - 52) := zpow_pos two_pos _
      exact iff_of_false (by linarith) (by linarith)

theorem nearestDouble_of_le (h : |q| ≤ 2 ^ (-1075 : ℤ)) : nearestDouble q = some 0 := by
  by_cases hq : q = 0
  · rw [nearestDouble, if_pos hq]
  · rw [nearestDouble_of_ne hq, unitsOf_eq_zero_iff_le.mpr h, Nat.cast_zero, zero_mul, neg_zero, ite_self, if_pos]
    positivity

-- What is rounded to another double keeps its sign.
theorem sign_nearestDouble (h : 2 ^ (-1075 : ℤ) < |q|) (hv : nearestDouble q = some v) :
    SignType.sign v = SignType.sign q := by
  have hq : q ≠ 0 := fun hq => by
    rw [hq, abs_zero] at h
    exact h.not_ge (zpow_pos two_pos _).le
  rw [nearestDouble_of_ne hq] at hv
  obtain rfl := Option.some.inj (Option.ite_none_right_eq_some.mp hv).2
  have hu : 0 < unitsOf q * ulp q :=
    mul_pos (Nat.cast_pos.mpr <| Nat.pos_of_ne_zero fun hz => h.not_ge <| unitsOf_eq_zero_iff_le.mp hz) ulp_pos
  obtain hn | hn := lt_or_gt_of_ne hq
  · rw [if_pos hn, sign_neg hn, sign_neg <| neg_neg_of_pos hu]
  · rw [if_neg hn.not_gt, sign_pos hn, sign_pos hu]

end Nearest
end JsNumber
