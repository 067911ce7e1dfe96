import LoxilbUi.Library.JsString
import LoxilbUi.Library.PrefixCode

-- The order of texts by their code units, in which the language sorts them.

namespace JsString

-- The order of `ss.sort()`.
def unitsLE (s t : String) : Bool :=
  (compare (codeUnits s) (codeUnits t)).isLE

def sort (ss : List String) : List String :=
  ss.mergeSort unitsLE

-- The code units of one character.
def unitsOf (c : Char) : List Nat :=
  if c.toNat < 0x10000 then [c.toNat]
  else [0xD800 + (c.toNat - 0x10000) / 0x400, 0xDC00 + (c.toNat - 0x10000) % 0x400]

variable {s t u : String} {ss ts : List String}

-- A pair begins with a number that no single unit is.
theorem toNat_not_surrogate (c : Char) : c.toNat < 0xD800 ∨ 0xDFFF < c.toNat ∧ c.toNat < 0x110000 :=
  c.valid

theorem unitsOf_isCode : PrefixCode.IsCode unitsOf where
  ne_nil c := by
    rw [unitsOf]
    split <;> simp
  inj {c d r s} h := by
    have hc := toNat_not_surrogate c
    have hd := toNat_not_surrogate d
    refine Char.toNat_inj.mp ?_
    simp only [unitsOf] at h
    split at h <;> split at h <;>
      simp only [List.cons_append, List.nil_append, List.cons.injEq] at h <;> omega

theorem codeUnits_injective : Function.Injective codeUnits := fun _ _ h =>
  String.toList_inj.mp <| unitsOf_isCode.flatMap_injective h

theorem unitsLE_total : (unitsLE s t || unitsLE t s) = true := by
  have h : (compare (codeUnits t) (codeUnits s)).isLE = (compare (codeUnits s) (codeUnits t)).isGE :=
    Std.OrientedCmp.isGE_eq_isLE.symm
  rw [unitsLE, unitsLE, h]
  cases compare (codeUnits s) (codeUnits t) <;> rfl

theorem unitsLE_trans (hs : unitsLE s t = true) (ht : unitsLE t u = true) : unitsLE s u = true :=
  Std.TransCmp.isLE_trans hs ht

theorem unitsLE_antisymm (hs : unitsLE s t = true) (ht : unitsLE t s = true) : s = t :=
  codeUnits_injective <| Std.LawfulEqCmp.compare_eq_iff_eq.mp <| Std.OrientedCmp.isLE_antisymm hs ht

theorem sort_perm : (sort ss).Perm ss :=
  List.mergeSort_perm ..

theorem sort_pairwise : (sort ss).Pairwise fun s t => unitsLE s t = true := by
  refine List.pairwise_mergeSort ?_ ?_ ss
  · exact fun _ _ _ hs ht => unitsLE_trans hs ht
  · exact fun _ _ => unitsLE_total

-- The order in which texts are given is of no account.
theorem sort_eq_of_perm (h : ss.Perm ts) : sort ss = sort ts :=
  (sort_perm.trans <| h.trans sort_perm.symm).eq_of_pairwise (fun _ _ _ _ hs ht => unitsLE_antisymm hs ht)
    sort_pairwise sort_pairwise

end JsString
