import Mathlib.Data.List.GetD
import Mathlib.Data.Nat.Bitwise

-- Words of a fixed width side by side, read bit by bit from the most significant on.

namespace Bits

variable {width keep i j n : Nat} {units units' l r : List Nat}

def bit (width : Nat) (units : List Nat) (i : Nat) : Bool :=
  (units.getD (i / width) 0).testBit (width - 1 - i % width)

def Fit (width : Nat) (units : List Nat) : Prop :=
  ∀ u ∈ units, u < 2 ^ width

theorem bit_word (hj : j < width) :
    bit width units (i * width + j) = (units.getD i 0).testBit (width - 1 - j) := by
  have hd : (i * width + j) / width = i := by
    rw [Nat.add_comm, Nat.add_mul_div_right _ _ (by omega), Nat.div_eq_of_lt hj, Nat.zero_add]
  have hm : (i * width + j) % width = j := by
    rw [Nat.add_comm, Nat.add_mul_mod_self_right, Nat.mod_eq_of_lt hj]
  rw [bit, hd, hm]

theorem bit_of_le (hw : 0 < width) (h : units.length * width ≤ i) : bit width units i = false := by
  have hi : units.length ≤ i / width := (Nat.le_div_iff_mul_le hw).mpr h
  rw [bit, List.getD_eq_default _ _ hi, Nat.zero_testBit]

theorem bit_append_left (hw : 0 < width) (h : i < l.length * width) :
    bit width (l ++ r) i = bit width l i := by
  have hi : i / width < l.length := (Nat.div_lt_iff_lt_mul hw).mpr h
  rw [bit, bit, List.getD_append _ _ _ _ hi]

theorem bit_append_right (hw : 0 < width) :
    bit width (l ++ r) (l.length * width + i) = bit width r i := by
  have hd : (l.length * width + i) / width = l.length + i / width := by
    rw [Nat.add_comm, Nat.add_mul_div_right _ _ hw, Nat.add_comm]
  have hm : (l.length * width + i) % width = i % width := by
    rw [Nat.add_comm, Nat.add_mul_mod_self_right]
  rw [bit, bit, hd, hm, List.getD_append_right _ _ _ _ (Nat.le_add_right ..), Nat.add_sub_cancel_left]

theorem bit_replicate_zero : bit width (List.replicate n 0) i = false := by
  rw [bit, List.getD_eq_getElem?_getD, List.getElem?_getD_replicate_default_eq, Nat.zero_testBit]

-- Words that agree in every bit are the same.
theorem eq_of_bit (h : Fit width units) (h' : Fit width units') (hl : units.length = units'.length)
    (hb : ∀ i < units.length * width, bit width units i = bit width units' i) : units = units' := by
  refine List.ext_getElem hl fun k hk hk' => Nat.eq_of_testBit_eq fun b => ?_
  by_cases hw : b < width
  · have hi : k * width + (width - 1 - b) < units.length * width :=
      calc k * width + (width - 1 - b) < (k + 1) * width := by rw [Nat.succ_mul]; omega
        _ ≤ units.length * width := Nat.mul_le_mul_right _ hk
    have he := hb _ hi
    rw [bit_word (by omega), bit_word (by omega), List.getD_eq_getElem _ _ hk,
      List.getD_eq_getElem _ _ hk'] at he
    rwa [show width - 1 - (width - 1 - b) = b by omega] at he
  · have hz {u : Nat} (hu : u < 2 ^ width) : u.testBit b = false :=
      Nat.testBit_lt_two_pow <| hu.trans_le <| Nat.pow_le_pow_right (by omega) (by omega)
    rw [hz <| h _ <| List.getElem_mem _, hz <| h' _ <| List.getElem_mem _]

-- The first `keep` bits of a word of `width` bits.
theorem testBit_highMask (hk : keep ≤ width) (hj : j < width) :
    (n &&& (((1 <<< keep) - 1) <<< (width - keep))).testBit (width - 1 - j) =
      (n.testBit (width - 1 - j) && decide (j < keep)) := by
  rw [Nat.testBit_and, Nat.testBit_shiftLeft, Nat.one_shiftLeft, Nat.testBit_two_pow_sub_one]
  congr 1
  rw [Bool.eq_iff_iff]
  simp only [Bool.and_eq_true, decide_eq_true_eq]
  omega

end Bits
