import LoxilbUi.Hooks.LbRuleApplied

namespace LBRuleApplied

variable {s t : String} {address network : BitVec 32} {bits i : Nat} {octets : List (List Char)}
variable {n : Nat} {ds l : List Char}

def numberOf (ds : List Char) : Nat :=
  Nat.ofDigitChars 10 ds 0

def octetBits (octets : List (List Char)) (i : Nat) : BitVec 8 :=
  .ofNat 8 <| numberOf <| octets.getD i []

-- The text writes the prefix in dotted decimals.
structure Writes (t : String) (address : BitVec 32) (bits : Nat) (octets : List (List Char))
    (l : List Char) : Prop where
  text    : (JsString.trim t).toList = ['.'].intercalate octets ++ '/' :: l
  four    : octets.length = 4
  octet   : ∀ ds ∈ octets, isNumeral 3 ds = true ∧ numberOf ds ≤ 255
  length  : isNumeral 2 l = true ∧ numberOf l = bits ∧ bits ≤ 32
  address : address = octetBits octets 0 ++ octetBits octets 1 ++ octetBits octets 2 ++
    octetBits octets 3

def WritesPrefix (t : String) (address : BitVec 32) (bits : Nat) : Prop :=
  ∃ octets l, Writes t address bits octets l

-- The first bits say which network, the others are none of the host's any more.
def HostBitsCleared (bits : Nat) (address network : BitVec 32) : Prop :=
  ∀ i < 32, network.getMsbD i = (decide (i < bits) && address.getMsbD i)

theorem isNumeral_digits (h : isNumeral n ds = true) : ∀ c ∈ ds, c.isDigit = true := by
  simp only [isNumeral, Bool.and_eq_true, List.all_eq_true] at h
  exact h.right

theorem isNumeral_ne {c : Char} (h : isNumeral n ds = true) (hc : c.isDigit = false) : c ∉ ds :=
  fun hm => by simp [isNumeral_digits h c hm] at hc

theorem exists_of_four (h : octets.length = 4) : ∃ a b c d, octets = [a, b, c, d] :=
  match octets, h with
  | [a, b, c, d], _ => ⟨a, b, c, d, rfl⟩

-- The octets side by side are the octets shifted to their places.
theorem append_eq_or {a b c d : Nat} (ha : a ≤ 255) (hb : b ≤ 255) (hc : c ≤ 255) (hd : d ≤ 255) :
    BitVec.ofNat 8 a ++ BitVec.ofNat 8 b ++ BitVec.ofNat 8 c ++ BitVec.ofNat 8 d =
      addressOf [a, b, c, d] := by
  have low {n w : Nat} (hn : n ≤ 255) (hw : w ≤ 24) : n <<< w < 2 ^ 32 := by
    rw [Nat.shiftLeft_eq]
    calc n * 2 ^ w ≤ 255 * 2 ^ 24 := Nat.mul_le_mul hn (Nat.pow_le_pow_right (by omega) hw)
      _ < 2 ^ 32 := by omega
  have byte {n : Nat} (hn : n ≤ 255) : n % 2 ^ 8 = n := Nat.mod_eq_of_lt (by omega)
  have word {n : Nat} (hn : n ≤ 255) : n % 2 ^ 32 = n := Nat.mod_eq_of_lt (by omega)
  apply BitVec.eq_of_toNat_eq
  rw [BitVec.toNat_append, BitVec.toNat_append, BitVec.toNat_append]
  simp only [addressOf, octetOf, List.getD_cons_zero, List.getD_cons_succ, BitVec.toNat_or,
    BitVec.toNat_shiftLeft, BitVec.toNat_ofNat, byte ha, byte hb, byte hc, byte hd, word ha, word hb,
    word hc, word hd, Nat.shiftLeft_or_distrib, ← Nat.shiftLeft_add]
  rw [Nat.mod_eq_of_lt (low ha _), Nat.mod_eq_of_lt (low hb _), Nat.mod_eq_of_lt (low hc _)] <;> omega

theorem getMsbD_maskOf (hb : bits ≤ 32) :
    (maskOf bits).getMsbD i = decide (i < bits) := by
  simp only [maskOf]
  split
  case isTrue h => simp [h]
  case isFalse h =>
    have : (0xffffffff#32) = BitVec.allOnes 32 := rfl
    rw [this, BitVec.getMsbD_shiftLeft, BitVec.getMsbD_allOnes]
    simp only [decide_eq_decide]
    omega

theorem HostBitsCleared.eq_and (h : HostBitsCleared bits address network) (hb : bits ≤ 32) :
    network = address &&& maskOf bits := by
  apply BitVec.eq_of_getMsbD_eq
  intro i hi
  rw [h i hi, BitVec.getMsbD_and, getMsbD_maskOf hb, Bool.and_comm]

namespace Writes

theorem ne_nil (h : Writes t address bits octets l) : octets ≠ [] := by
  rintro rfl
  simpa using h.four

theorem slash (h : Writes t address bits octets l) : '/' ∉ ['.'].intercalate octets := by
  obtain ⟨a, b, c, d, rfl⟩ := exists_of_four h.four
  have hne := fun ds hd => isNumeral_ne (h.octet ds hd).left (show '/'.isDigit = false by decide)
  simpa [List.intercalate] using hne

theorem prefixMatch (h : Writes t address bits octets l) :
    prefixMatch (JsString.trim t) = some (octets.map numberOf, bits) := by
  have hs : (JsString.trim t).toList.splitOn '/' = [['.'].intercalate octets, l] := by
    have ht : ['/'].intercalate [['.'].intercalate octets, l] =
        ['.'].intercalate octets ++ '/' :: l := by simp [List.intercalate]
    rw [h.text, ← ht, List.splitOn_intercalate]
    · simpa using ⟨h.slash, isNumeral_ne h.length.left (by decide)⟩
    · simp
  have ho : (['.'].intercalate octets).splitOn '.' = octets :=
    List.splitOn_intercalate _ (fun ds hd => isNumeral_ne (h.octet ds hd).left (by decide)) h.ne_nil
  have ha : octets.all (isNumeral 3) = true := by
    simp only [List.all_eq_true]
    exact fun ds hd => (h.octet ds hd).left
  simp only [LBRuleApplied.prefixMatch, hs, ho, h.four, ha, h.length.left]
  simp [← h.length.right.left, numberOf]

theorem canonical (h : Writes t address bits octets l) :
    canonicalSourcePrefix t = networkText (address &&& maskOf bits) bits := by
  have hm := h.prefixMatch
  obtain ⟨a, b, c, d, rfl⟩ := exists_of_four h.four
  have ho := h.octet
  have hb := h.length.right.right
  simp only [List.mem_cons, List.not_mem_nil, or_false, forall_eq_or_imp, forall_eq] at ho
  obtain ⟨⟨_, ha⟩, ⟨_, hb'⟩, ⟨_, hc⟩, ⟨_, hd⟩⟩ := ho
  have hv : ¬(bits > 32 || ([a, b, c, d].map numberOf).any (· > 255)) = true := by
    simp [hb, ha, hb', hc, hd]
  have he : address = addressOf ([a, b, c, d].map numberOf) :=
    h.address ▸ append_eq_or ha hb' hc hd
  simp only [canonicalSourcePrefix, hm, if_neg hv, ← he]

end Writes

theorem canonicalSourcePrefix_eq (hs : WritesPrefix s address bits)
    (ht : WritesPrefix t network bits) (h : HostBitsCleared bits address network) :
    canonicalSourcePrefix s = canonicalSourcePrefix t := by
  obtain ⟨octets, l, hs⟩ := hs
  obtain ⟨octets', l', ht⟩ := ht
  have hn := h.eq_and hs.length.right.right
  rw [hs.canonical, ht.canonical, hn, BitVec.and_assoc, BitVec.and_self]

end LBRuleApplied
