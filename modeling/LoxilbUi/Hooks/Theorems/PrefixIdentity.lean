import LoxilbUi.Hooks.Theorems.SourcePrefix
import LoxilbUi.Types.Theorems.NetworkPrefix

-- The two identities of an IPv4 prefix, by its canonical text and by its key, are one.

namespace NetworkPrefix

open Bits Ipv6 LBRuleApplied

variable {s t : String} {address address' network network' : BitVec 32} {bits bits' i n : Nat}
variable {octets : List (List Char)} {l : List Char}

section Octets

theorem octetBits_bit {j : Nat} (hj : j < 8) :
    (octetBits octets i).getMsbD j = (numberOf <| octets.getD i []).testBit (8 - 1 - j) := by
  rw [octetBits, BitVec.getMsbD_eq_getLsbD, BitVec.getLsbD_ofNat, decide_eq_true hj,
    decide_eq_true <| by omega, Bool.true_and, Bool.true_and]

-- The address is the octets, bit by bit.
theorem bit_octets_eq (h : Writes t address bits octets l) (hi : i < 32) :
    bit 8 (octets.map numberOf) i = address.getMsbD i := by
  obtain ⟨k, j, hj, rfl⟩ : ∃ k j, j < 8 ∧ i = k * 8 + j :=
    ⟨i / 8, i % 8, Nat.mod_lt _ (by omega), (Nat.div_add_mod' i 8).symm⟩
  have hk : k < 4 := by omega
  have hd : (octets.map numberOf).getD k (numberOf []) = numberOf (octets.getD k []) :=
    List.getD_map ..
  have hs (a b : Nat) (hb : b = a + j) : b - a = j := by omega
  rw [bit_word hj]
  refine (congrArg (Nat.testBit · _) hd).trans ?_
  rw [← octetBits_bit hj, h.address, BitVec.getMsbD_append, BitVec.getMsbD_append,
    BitVec.getMsbD_append]
  interval_cases k
  · rw [if_neg (by omega), if_neg (by omega), if_neg (by omega), Nat.zero_mul, Nat.zero_add]
  · rw [if_neg (by omega), if_neg (by omega), if_pos (by omega), hs _ _ (by omega)]
  · rw [if_neg (by omega), if_pos (by omega), hs _ _ (by omega)]
  · rw [if_pos (by omega), hs _ _ (by omega)]

-- The octets that the network is written with.
def parts (network : BitVec 32) : List Nat :=
  [network >>> 24, network >>> 16 &&& 255, network >>> 8 &&& 255, network &&& 255].map (·.toNat)

theorem low_getLsbD {x : BitVec 32} : (x &&& 255).getLsbD i = (x.getLsbD i && decide (i < 8)) := by
  have ho : (255#32).getLsbD i = decide (i < 8) := by
    rw [BitVec.getLsbD_ofNat, show 255 = 2 ^ 8 - 1 by rfl, Nat.testBit_two_pow_sub_one,
      Bool.eq_iff_iff]
    simp only [Bool.and_eq_true, decide_eq_true_eq]
    omega
  rw [BitVec.getLsbD_and]
  exact congrArg _ ho

theorem addressOf_parts : addressOf (parts network) = network := by
  have ho {x : BitVec 32} : BitVec.ofNat 32 x.toNat = x := by simp
  refine BitVec.eq_of_getLsbD_eq fun i hi => ?_
  simp only [addressOf, octetOf, parts, List.map_cons, List.getD_cons_zero, List.getD_cons_succ, ho,
    BitVec.getLsbD_or, BitVec.getLsbD_shiftLeft, low_getLsbD, BitVec.getLsbD_ushiftRight]
  -- In each octet one of the four terms is the bit, and the others are none.
  obtain h | ⟨h, h'⟩ | ⟨h, h'⟩ | h :
      i < 8 ∨ (8 ≤ i ∧ i < 16) ∨ (16 ≤ i ∧ i < 24) ∨ 24 ≤ i := by omega
  · simp [h, show i < 16 by omega, show i < 24 by omega]
  · simp [hi, h', show ¬i < 8 by omega, show i < 24 by omega, show i - 8 < 8 by omega,
      Nat.add_sub_cancel' h]
  · simp [hi, h', show ¬i < 8 by omega, show ¬i < 16 by omega, show i - 16 < 8 by omega,
      show ¬i - 8 < 8 by omega, Nat.add_sub_cancel' h]
  · simp [hi, show ¬i < 8 by omega, show ¬i < 16 by omega, show ¬i < 24 by omega,
      show ¬i - 8 < 8 by omega, show ¬i - 16 < 8 by omega, Nat.add_sub_cancel' h]

end Octets

section Canonical

theorem networkText_eq : networkText network bits =
    ".".intercalate ((parts network).map Nat.repr) ++ "/" ++ bits.repr := by
  simp [networkText, parts]

theorem networkText_inj (h : networkText network bits = networkText network' bits') :
    network = network' ∧ bits = bits' := by
  have plain (network : BitVec 32) : ∀ s ∈ (parts network).map Nat.repr, '.' ∉ s.toList := by
    intro s hs
    obtain ⟨m, -, rfl⟩ := List.mem_map.mp hs
    exact repr_plain <| by decide
  rw [networkText_eq, networkText_eq] at h
  obtain ⟨hp, hb⟩ := JsString.append_inj_of_not_mem rfl (repr_plain (by decide))
    (repr_plain (by decide)) h
  have hp := JsString.intercalate_inj (c := '.') rfl (by simp [parts]) (by simp [parts])
    (plain network) (plain network') hp
  have hp := List.map_injective_iff.mpr (fun _ _ => repr_inj) hp
  have hn := congrArg addressOf hp
  rw [addressOf_parts, addressOf_parts] at hn
  exact ⟨hn, repr_inj hb⟩

theorem parts_le (h : n ∈ parts network) : n ≤ 255 := by
  have low {x : BitVec 32} : (x &&& 255).toNat ≤ 255 := by
    rw [BitVec.toNat_and]
    exact Nat.and_le_right
  simp only [parts, List.map_cons, List.map_nil, List.mem_cons, List.not_mem_nil, or_false] at h
  obtain rfl | rfl | rfl | rfl := h
  · rw [BitVec.toNat_ushiftRight, Nat.shiftRight_eq_div_pow]
    have hn := network.isLt
    omega
  · exact low
  · exact low
  · exact low

theorem isNumeral_toDigits (h : n < 10 ^ (i + 1)) : isNumeral (i + 1) (Nat.toDigits 10 n) = true := by
  have hl : (Nat.toDigits 10 n).length ≤ i + 1 :=
    (Nat.length_toDigits_le_iff (by omega) (by omega)).mpr h
  have hd : ∀ c ∈ Nat.toDigits 10 n, c.isDigit = true := fun c hc =>
    Nat.isDigit_of_mem_toDigits (by omega) (by omega) hc
  simp only [isNumeral, Bool.and_eq_true, decide_eq_true_eq, List.all_eq_true]
  exact ⟨⟨Nat.toDigits_ne_nil, hl⟩, hd⟩

theorem networkText_toList : (networkText network bits).toList =
    ['.'].intercalate ((parts network).map (Nat.toDigits 10)) ++ '/' :: Nat.toDigits 10 bits := by
  have hr : String.toList ∘ Nat.repr = Nat.toDigits 10 := funext fun _ => Nat.toList_repr
  rw [networkText_eq, String.toList_append, String.toList_append, String.toList_intercalate,
    List.map_map, hr, Nat.toList_repr, List.append_assoc]
  rfl

theorem trim_networkText : JsString.trim (networkText network bits) = networkText network bits := by
  refine JsString.trim_of_no_blank fun c hc => Bool.eq_false_iff.mpr fun hb => ?_
  have hp {x : Char} (hx : JsString.isBlank x = false) : c ≠ x := fun he =>
    Bool.noConfusion <| hb.symm.trans <| he ▸ hx
  have hd {n : Nat} : c ∉ Nat.toDigits 10 n := fun hm =>
    hp (JsString.not_isBlank_of_isDigit <| Nat.isDigit_of_mem_toDigits (by omega) (by omega) hm) rfl
  rw [networkText_toList, List.mem_append, List.mem_cons] at hc
  obtain hc | hc | hc := hc
  · refine JsString.not_mem_intercalate (hp <| by decide) (fun ds hm => ?_) hc
    obtain ⟨n, -, rfl⟩ := List.mem_map.mp hm
    exact hd
  · exact hp (by decide) hc
  · exact hd hc

-- The canonical text writes the network.
theorem writes_networkText (hb : bits ≤ 32) : WritesPrefix (networkText network bits) network bits := by
  have hn {n : Nat} : numberOf (Nat.toDigits 10 n) = n := Nat.ofDigitChars_ten_toDigits
  refine ⟨(parts network).map (Nat.toDigits 10), Nat.toDigits 10 bits, ?_, rfl, fun ds hd => ?_,
    ⟨isNumeral_toDigits <| by omega, hn, hb⟩, ?_⟩
  · rw [trim_networkText, networkText_toList]
  · obtain ⟨n, hp, rfl⟩ := List.mem_map.mp hd
    have hle := parts_le hp
    exact ⟨isNumeral_toDigits <| by omega, hn.symm ▸ hle⟩
  · have hle : ∀ n ∈ parts network, n ≤ 255 := fun _ => parts_le
    simp only [parts, List.map_cons, List.map_nil, List.forall_mem_cons] at hle
    obtain ⟨ha, hb, hc, hd, -⟩ := hle
    exact addressOf_parts.symm.trans <| (append_eq_or ha hb hc hd).symm.trans <| by
      simp [octetBits, parts, hn]

theorem canonical_idempotent (h : WritesPrefix t address bits) :
    canonicalSourcePrefix (canonicalSourcePrefix t) = canonicalSourcePrefix t := by
  obtain ⟨octets, l, h⟩ := h
  have hb := h.length.right.right
  have hw : WritesPrefix (networkText (address &&& maskOf bits) bits) _ bits := writes_networkText hb
  obtain ⟨octets', l', h'⟩ := hw
  rw [h.canonical, h'.canonical, BitVec.and_assoc, BitVec.and_self]

end Canonical

section Identity

variable {hostname : String → Option String} {parse : String → Option Address}
variable {octets' : List (List Char)} {l' : List Char}

def writtenPrefix (octets : List (List Char)) (bits : Nat) : Prefix where
  family := .v4
  bit    := bit 8 (octets.map numberOf)
  bits   := bits

theorem isDigits_of_isNumeral (h : isNumeral n l = true) : isDigits l = true := by
  simp only [isNumeral, Bool.and_eq_true, decide_eq_true_eq, List.all_eq_true] at h
  exact isDigits_iff.mpr ⟨h.1.1, h.2⟩

theorem denotes_of_writes (h : Writes t address bits octets l) :
    Denotes parse t (writtenPrefix octets bits) := by
  refine ⟨['.'].intercalate octets, '/' :: l, _, h.text, h.slash,
    .v4 h.four fun ds hd => ⟨isDigits_of_isNumeral (h.octet ds hd).1, (h.octet ds hd).2⟩,
    .inr ⟨l, rfl, isDigits_of_isNumeral h.length.1, h.length.2.1, ?_⟩, rfl⟩
  rw [List.length_map, h.four]
  exact h.length.2.2

theorem counted_writtenPrefix : (writtenPrefix octets bits).counted = writtenPrefix octets bits :=
  if_neg fun h => by simpa [writtenPrefix] using h.1

-- One canonical text is one network.
theorem canonical_eq_iff (hs : Writes s address bits octets l)
    (ht : Writes t address' bits' octets' l') :
    canonicalSourcePrefix s = canonicalSourcePrefix t ↔
      SameNetwork (writtenPrefix octets bits) (writtenPrefix octets' bits') := by
  have hb := hs.length.right.right
  rw [hs.canonical, ht.canonical]
  constructor
  case mp =>
    intro h
    obtain ⟨hn, rfl⟩ := networkText_inj h
    refine ⟨rfl, rfl, fun i hi => ?_⟩
    have hi : i < bits := hi
    have hm := congrArg (·.getMsbD i) hn
    simp only [BitVec.getMsbD_and, getMsbD_maskOf hb, decide_eq_true hi, Bool.and_true] at hm
    exact (bit_octets_eq hs <| by omega).trans <| hm.trans (bit_octets_eq ht <| by omega).symm
  case mpr =>
    rintro ⟨-, hbits, hi⟩
    obtain rfl : bits = bits' := hbits
    congr 1
    refine BitVec.eq_of_getMsbD_eq fun i hl => ?_
    rw [BitVec.getMsbD_and, BitVec.getMsbD_and, getMsbD_maskOf hb]
    by_cases hc : i < bits
    · have hm : bit 8 (octets.map numberOf) i = bit 8 (octets'.map numberOf) i := hi i hc
      rw [← bit_octets_eq hs hl, hm, bit_octets_eq ht hl]
    · simp [hc]

theorem canonical_eq_iff_key (hp : CanonicalText hostname parse) {key key' : String}
    (hs : WritesPrefix s address bits) (ht : WritesPrefix t address' bits')
    (hk : networkPrefixKey hostname s = some key) (hk' : networkPrefixKey hostname t = some key') :
    canonicalSourcePrefix s = canonicalSourcePrefix t ↔ key = key' := by
  obtain ⟨octets, l, hs⟩ := hs
  obtain ⟨octets', l', ht⟩ := ht
  obtain ⟨p, q, hd, hd', he⟩ := networkPrefixKey_eq_iff hp hk hk'
  rw [he, ← (hd _).mp (denotes_of_writes hs), ← (hd' _).mp (denotes_of_writes ht),
    counted_writtenPrefix, counted_writtenPrefix]
  exact canonical_eq_iff hs ht

-- An accepted input denotes one prefix, and two of them have one key where that is the same network;
-- on the IPv4 prefixes with a length of one or two digits the canonical text says the same.
theorem prefix_identity (hp : CanonicalText hostname parse) :
    (∀ a b key key', networkPrefixKey hostname a = some key →
      networkPrefixKey hostname b = some key' →
      ∃ p q, (∀ p', Denotes parse a p' ↔ p' = p) ∧ (∀ q', Denotes parse b q' ↔ q' = q) ∧
        (key = key' ↔ SameNetwork p.counted q.counted)) ∧
    (∀ a address bits, WritesPrefix a address bits →
      canonicalSourcePrefix (canonicalSourcePrefix a) = canonicalSourcePrefix a) ∧
    ∀ a b address address' bits bits' key key', WritesPrefix a address bits →
      WritesPrefix b address' bits' → networkPrefixKey hostname a = some key →
      networkPrefixKey hostname b = some key' →
      (canonicalSourcePrefix a = canonicalSourcePrefix b ↔ key = key') :=
  ⟨fun _ _ _ _ => networkPrefixKey_eq_iff hp, fun _ _ _ => canonical_idempotent,
    fun _ _ _ _ _ _ _ _ => canonical_eq_iff_key hp⟩

def documented : Address where
  units  := [0x2001, 0xdb8, 0, 0, 0, 0, 0, 1]
  length := rfl
  bound  := by decide

def documentedNetwork : Address where
  units  := [0x2001, 0xdb8, 0, 0, 0, 0, 0, 0]
  length := rfl
  bound  := by decide

def parseDocumented (ip : String) : Option Address :=
  if ip = "2001:DB8:0:0:0:0:0:1" then documented
  else if ip = "2001:db8::" then documentedNetwork
  else none

def documentedHostname (ip : String) : Option String :=
  if ip = "2001:DB8:0:0:0:0:0:1" then "[2001:db8::1]"
  else if ip = "2001:db8::" then "[2001:db8::]"
  else none

theorem documented_canonical : CanonicalText documentedHostname parseDocumented := by
  intro ip _
  rw [documentedHostname, parseDocumented]
  split
  · decide
  · split
    · decide
    · rfl

theorem prefix_identity_documented : ∃ p q, Denotes parseDocumented "2001:DB8:0:0:0:0:0:1/64" p ∧
    Denotes parseDocumented " 2001:db8::/064" q ∧ SameNetwork p.counted q.counted := by
  obtain ⟨p, q, hp, hq, he⟩ := (prefix_identity documented_canonical).1 "2001:DB8:0:0:0:0:0:1/64"
    " 2001:db8::/064" "v6:8193:3512:0:0:0:0:0:0/64" "v6:8193:3512:0:0:0:0:0:0/64" (by decide)
    (by decide)
  exact ⟨p, q, (hp p).mpr rfl, (hq q).mpr rfl, he.mp rfl⟩

end Identity

end NetworkPrefix
