import LoxilbUi.Library.JsNumber

-- Whole numbers up to 2⁵³ - 1: each is a number of its own, and its text reads back as it.

namespace JsNumber

def maxSafe : Nat :=
  9007199254740991

def ofNat (n : Nat) : JsNumber :=
  .finite <| .ofInt n

variable {n m v w j : Nat}

theorem ofNat_injective : Function.Injective ofNat := fun _ _ h =>
  Int.ofNat.inj <| Decimal.ofInt_injective <| JsNumber.finite.inj h

section Text

theorem toDigits_mul_ten (h : 0 < n) : Nat.toDigits 10 (n * 10 ^ j) = Nat.toDigits 10 n ++ List.replicate j '0' := by
  induction j
  case zero => simp
  case succ j hi =>
    have hp : 0 < n * 10 ^ j := Nat.mul_pos h <| Nat.pow_pos <| by decide
    have ha := Nat.toDigits_append_toDigits (d := 0) (by decide : 1 < 10) hp (by decide)
    rw [pow_succ, ← mul_assoc, mul_comm _ 10, ← Nat.add_zero (10 * _), ← ha, hi, List.append_assoc,
      List.replicate_succ']
    rfl

theorem strip_exponent_le {k : Nat} {m e : Int} : e ≤ (Decimal.strip k m e).2 := by
  induction k generalizing m e
  case zero => exact le_refl e
  case succ k hi =>
    rw [Decimal.strip]
    split
    case isTrue  => exact le_trans (by omega) hi
    case isFalse => exact le_refl e

theorem exponent_ofInt_nonneg {m : Int} : 0 ≤ (Decimal.ofInt m).exponent := by
  rw [Decimal.ofInt, Decimal.ofScaled]
  split
  case isTrue  => exact le_refl 0
  case isFalse => exact strip_exponent_le

-- A natural number is a mantissa with zeros behind it.
theorem exists_mantissa (n : Nat) : ∃ m e : Nat, (Decimal.ofInt n).mantissa = m ∧
    (Decimal.ofInt n).exponent = e ∧ m * 10 ^ e = n ∧ (m = 0 → e = 0) := by
  have hv := Decimal.value_ofInt n
  have hn := (Decimal.ofInt n).normal
  obtain ⟨e, he⟩ := Int.eq_ofNat_of_zero_le <| @exponent_ofInt_nonneg n
  rw [Decimal.value, he] at hv
  generalize (Decimal.ofInt n).mantissa = m at hv hn
  have hz : m * 10 ^ e = n := by
    simp only [zpow_natCast, Int.cast_natCast] at hv
    exact_mod_cast hv
  have hm : 0 ≤ m := by
    by_contra hneg
    have hlt : m * 10 ^ e < 0 := mul_neg_of_neg_of_pos (not_le.mp hneg) <| pow_pos (by decide) e
    omega
  obtain ⟨k, rfl⟩ := Int.eq_ofNat_of_zero_le hm
  refine ⟨k, e, rfl, he, by exact_mod_cast hz, fun hk => ?_⟩
  simp [hk, he] at hn
  exact hn

theorem toText_ofNat (h : n < 10 ^ 21) : (ofNat n).toText.toList = Nat.toDigits 10 n := by
  obtain ⟨m, e, hm, he, hn, hz⟩ := exists_mantissa n
  have hs : ¬((m : Int) < 0) := by omega
  have hl : (Nat.toDigits 10 m).length + e ≤ 21 := by
    rw [← Nat.length_toDigits_le_iff (by decide) (by decide), ← hn] at h
    cases Nat.eq_zero_or_pos m
    case inl h₀ =>
      obtain rfl := h₀
      simp [hz rfl]
    case inr hp => simpa [toDigits_mul_ten hp] using h
  simp only [ofNat, toText, Decimal.text, hm, he, hs, if_false, String.toList_ofList, Decimal.digitsText,
    Int.natAbs_natCast]
  rw [if_pos (by omega), Int.toNat_natCast]
  cases Nat.eq_zero_or_pos m
  case inl h₀ =>
    obtain rfl := h₀
    rw [← hn, hz rfl]
    simp
  case inr hp => rw [← toDigits_mul_ten hp, hn]

end Text

section Read

-- The nearest multiple of the step between two doubles, a tie going to the even one.
def rounded (n : Nat) : Nat :=
  let ulp := 2 ^ (n.log2 - 52)
  let q := n / ulp
  let r := n % ulp
  (if 2 * r > ulp || (2 * r = ulp && q % 2 = 1) then q + 1 else q) * ulp

theorem roundToDouble_eq : roundToDouble n = if rounded n < 2 ^ 1024 then some (rounded n) else none :=
  rfl

theorem rounded_of_roundToDouble (h : roundToDouble n = some v) : rounded n = v := by
  rw [roundToDouble_eq] at h
  exact (Option.ite_none_right_eq_some.mp h).2 |> Option.some.inj

theorem rounded_of_lt (h : n < 2 ^ 53) : rounded n = n := by
  have hu : n.log2 - 52 = 0 := by
    by_cases hn : n = 0
    · simp [hn]
    · have := (Nat.log2_lt hn).mpr h
      omega
  simp [rounded, hu, Nat.mod_one]

theorem roundToDouble_of_lt (h : n < 2 ^ 53) : roundToDouble n = some n := by
  have hp : ∀ k ≥ 53, n < 2 ^ k := fun k hk => Nat.lt_of_lt_of_le h <| Nat.pow_le_pow_right (by decide) hk
  have hb : n < 2 ^ 1024 := hp 1024 (by decide)
  rw [roundToDouble_eq, rounded_of_lt h, if_pos hb]

-- A larger number does not become a smaller double.
theorem le_rounded (h : 2 ^ 53 ≤ w) : 2 ^ 53 ≤ rounded w := by
  have hw : w ≠ 0 := by omega
  obtain ⟨k, hk⟩ : ∃ k, w.log2 - 52 = k + 1 := by
    have := (Nat.le_log2 hw).mpr h
    exact ⟨w.log2 - 53, by omega⟩
  have hq : 2 ^ 52 ≤ w / 2 ^ (k + 1) := by
    rw [Nat.le_div_iff_mul_le (Nat.two_pow_pos _), ← Nat.pow_add, show 52 + (k + 1) = w.log2 by omega]
    exact Nat.log2_self_le hw
  have hp : 2 ^ 53 ≤ 2 ^ 52 * 2 ^ (k + 1) := by
    rw [← Nat.pow_add]
    exact Nat.pow_le_pow_right (by decide) (by omega)
  simp only [rounded, hk]
  refine hp.trans <| Nat.mul_le_mul_right _ ?_
  split <;> omega

theorem eq_of_roundToDouble (h : n < 2 ^ 53) (hv : roundToDouble w = some n) : w = n := by
  obtain hw | hw := Nat.lt_or_ge w (2 ^ 53)
  · exact Option.some.inj <| (roundToDouble_of_lt hw).symm.trans hv
  · exact absurd h <| Nat.not_lt.mpr <| rounded_of_roundToDouble hv ▸ le_rounded hw

theorem roundToDouble_of_standsFor (h : standsFor v j = some w) : roundToDouble w = some v := by
  unfold standsFor at h
  dsimp only at h
  split at h
  case h_1 hd _  => exact Option.some.inj h ▸ eq_of_beq hd
  case h_2 _ hu  => exact Option.some.inj h ▸ eq_of_beq hu
  case h_3 hd hu =>
    split at h
    case isTrue  => exact Option.some.inj h ▸ eq_of_beq hd
    case isFalse => exact Option.some.inj h ▸ eq_of_beq hu
  case h_4       => cases h

theorem shortest_of_lt (h : n < 2 ^ 53) : shortest n = n := by
  rw [shortest]
  cases hs : (List.range (Nat.toDigits 10 n).length).reverse.findSome? (standsFor n)
  case none   => rfl
  case some w =>
    obtain ⟨j, -, hj⟩ := List.exists_of_findSome?_eq_some hs
    exact eq_of_roundToDouble h <| roundToDouble_of_standsFor hj

theorem nearest_of_lt (h : n < 2 ^ 53) : nearest n = ofNat n := by
  unfold nearest
  rw [roundToDouble_of_lt h]
  exact congrArg ofNat <| shortest_of_lt h

-- What is read from the text of a number is the number.
theorem ofDigits_toText (h : n ≤ maxSafe) : ofDigits (ofNat n).toText.toList = ofNat n := by
  have hb : n < 2 ^ 53 := Nat.lt_of_le_of_lt h <| by decide
  have ht : n < 10 ^ 21 := hb.trans <| by decide
  rw [toText_ofNat ht, ofDigits, Nat.ofDigitChars_ten_toDigits, nearest_of_lt hb]

theorem exists_nat_of_nearest {d : Decimal} (h : nearest n = .finite d) : ∃ m, JsNumber.finite d = ofNat m := by
  unfold nearest at h
  split at h
  case h_1 v _ => exact ⟨shortest v, h.symm⟩
  case h_2     => cases h

end Read

end JsNumber
