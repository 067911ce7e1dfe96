import LoxilbUi.Library.Bits
import LoxilbUi.Types.NetworkPrefix
import Mathlib.Tactic.IntervalCases

-- Two inputs have one key where they denote one network.

namespace NetworkPrefix

open Ipv6 Bits

variable {r r' : Reading} {bits bits' i n : Nat} {units : List Nat} {ip : List Char}

section Expand

theorem unitsOf_words : unitsOf (words units) = units := by
  by_cases h : units = []
  · simp [h, words, unitsOf]
  · rw [unitsOf, if_neg (words_ne_nil h), splitOn_words h, List.map_map]
    have hp : parseHex ∘ Nat.toDigits 16 = id := funext fun _ => parseHex_toDigits
    rw [hp, List.map_id]

theorem expand_double {left right : List Nat} : expand (words left ++ ':' :: ':' :: words right) =
    left ++ List.replicate (8 - left.length - right.length) 0 ++ right := by
  rw [expand, splitDouble_words, splitDouble_double, splitDouble_words_self]
  simp [unitsOf_words]

-- The text that is canonical is read back.
theorem expand_textOf (h : units.length = 8) : expand (textOf units) = units := by
  obtain ht | ⟨left, right, n, hu, ht⟩ := textOf_cases units
  · rw [ht, expand, splitDouble_words_self]
    exact unitsOf_words
  · have hn : 8 - left.length - right.length = n := by
      rw [hu] at h
      simp only [List.length_append, List.length_replicate] at h
      omega
    rw [ht, expand_double, hn, ← hu]

end Expand

section Mask

theorem maskUnit_le {width : Nat} : maskUnit width bits i n ≤ n := by
  simp only [maskUnit]
  split
  case isTrue  => exact Nat.zero_le n
  case isFalse => exact Nat.and_le_left

theorem testBit_maskUnit {width j : Nat} (hj : j < width) :
    (maskUnit width bits i n).testBit (width - 1 - j) =
      (n.testBit (width - 1 - j) && decide (i * width + j < bits)) := by
  have hd : decide (j < min width (bits - i * width)) = decide (i * width + j < bits) := by
    rw [decide_eq_decide]
    omega
  simp only [maskUnit]
  split
  case isTrue h =>
    rw [← hd, h]
    simp
  case isFalse => rw [testBit_highMask (Nat.min_le_left ..) hj, hd]

def Reading.masked (r : Reading) (bits : Nat) : List Nat :=
  r.units.mapIdx (maskUnit r.width bits)

-- The first bits are kept, the others are cleared.
theorem bit_masked (hw : 0 < r.width) (hi : i < r.units.length * r.width) :
    bit r.width (r.masked bits) i = (bit r.width r.units i && decide (i < bits)) := by
  have hk : i / r.width < r.units.length := (Nat.div_lt_iff_lt_mul hw).mpr hi
  have hk' : i / r.width < (r.masked bits).length := by simpa [Reading.masked] using hk
  rw [bit, bit, List.getD_eq_getElem _ _ hk, List.getD_eq_getElem _ _ hk']
  simp only [Reading.masked, List.getElem_mapIdx]
  rw [testBit_maskUnit (Nat.mod_lt _ hw), Nat.div_add_mod']

theorem fit_masked (h : Fit r.width r.units) : Fit r.width (r.masked bits) := by
  intro u hu
  obtain ⟨k, hk, rfl⟩ := List.mem_mapIdx.mp hu
  exact maskUnit_le.trans_lt <| h _ <| List.getElem_mem _

end Mask

section Key

-- A network prefix: the bits of an address from the first on, and how many of them count.
structure Prefix where
  family : Family
  bit    : Nat → Bool
  bits   : Nat

structure SameNetwork (p q : Prefix) : Prop where
  family : p.family = q.family
  bits   : p.bits = q.bits
  bit    : ∀ i < p.bits, p.bit i = q.bit i

-- What is read of an address is all of it.
structure Reading.Whole (r : Reading) : Prop where
  shape : r.family = .v4 ∧ r.width = 8 ∧ r.units.length = 4 ∨
    r.family = .v6 ∧ r.width = 16 ∧ r.units.length = 8
  fit   : Fit r.width r.units

def Reading.toPrefix (r : Reading) (bits : Nat) : Prefix where
  family := r.family
  bit    := bit r.width r.units
  bits   := bits

theorem Reading.Whole.width_pos (h : r.Whole) : 0 < r.width := by
  obtain ⟨-, hw, -⟩ | ⟨-, hw, -⟩ := h.shape <;> omega

theorem Reading.Whole.same_shape (h : r.Whole) (h' : r'.Whole) (hf : r.family = r'.family) :
    r.width = r'.width ∧ r.units.length = r'.units.length := by
  obtain ⟨hv, hw, hl⟩ | ⟨hv, hw, hl⟩ := h.shape
  all_goals obtain ⟨hv', hw', hl'⟩ | ⟨hv', hw', hl'⟩ := h'.shape
  · exact ⟨hw.trans hw'.symm, hl.trans hl'.symm⟩
  · rw [hv, hv'] at hf
    contradiction
  · rw [hv, hv'] at hf
    contradiction
  · exact ⟨hw.trans hw'.symm, hl.trans hl'.symm⟩

theorem masked_eq_iff (h : r.Whole) (h' : r'.Whole) (hf : r.family = r'.family)
    (hb : bits ≤ r.units.length * r.width) :
    r.masked bits = r'.masked bits ↔ ∀ i < bits, bit r.width r.units i = bit r'.width r'.units i := by
  obtain ⟨hw, hl⟩ := h.same_shape h' hf
  have hm {s : Reading} : (s.masked bits).length = s.units.length := List.length_mapIdx
  constructor
  case mp =>
    intro he i hi
    have hs : bit r.width (r.masked bits) i = (bit r.width r.units i && decide (i < bits)) :=
      bit_masked h.width_pos <| by omega
    have hs' : bit r'.width (r'.masked bits) i = (bit r'.width r'.units i && decide (i < bits)) :=
      bit_masked h'.width_pos <| by rw [← hw, ← hl]; omega
    rw [he, hw] at hs
    simpa [hi, hw] using hs.symm.trans hs'
  case mpr =>
    intro he
    have hf' : Fit r.width (r'.masked bits) := hw ▸ fit_masked h'.fit
    refine eq_of_bit (fit_masked h.fit) hf' (by rw [hm, hm, hl]) fun i hi => ?_
    rw [hm] at hi
    rw [bit_masked h.width_pos hi, hw, bit_masked h'.width_pos <| by rw [← hw, ← hl]; exact hi]
    by_cases hc : i < bits
    · rw [← hw, he i hc, hw]
    · simp [hc]

theorem Family.text_inj {f g : Family} (h : f.text = g.text) : f = g := by
  cases f <;> cases g <;> first | rfl | simp [Family.text] at h

theorem Reading.Whole.prefixKey_eq (h : r.Whole) : prefixKey r bits =
    ":".intercalate (r.family.text :: (r.masked bits).map Nat.repr) ++ "/" ++ bits.repr := by
  have hn : (r.masked bits).map Nat.repr ≠ [] := by
    have hl : 0 < r.units.length := by
      obtain ⟨-, -, hl⟩ | ⟨-, -, hl⟩ := h.shape <;> omega
    refine List.ne_nil_of_length_pos ?_
    simpa [Reading.masked] using hl
  rw [String.intercalate_cons_of_ne_nil hn]
  rfl

theorem repr_plain {c : Char} (h : c.isDigit = false) : c ∉ n.repr.toList := by
  intro hc
  rw [Nat.toList_repr] at hc
  rw [Nat.isDigit_of_mem_toDigits (by omega) (by omega) hc] at h
  contradiction

theorem repr_inj {m : Nat} (h : m.repr = n.repr) : m = n := by
  have ht := congrArg (Nat.ofDigitChars 10 ·.toList 0) h
  simpa only [Nat.toList_repr, Nat.ofDigitChars_ten_toDigits] using ht

theorem keyParts_plain : ∀ s ∈ r.family.text :: (r.masked bits).map Nat.repr, ':' ∉ s.toList := by
  refine List.forall_mem_cons.mpr ⟨?_, fun s hs => ?_⟩
  · cases r.family <;> decide
  · obtain ⟨m, -, rfl⟩ := List.mem_map.mp hs
    exact repr_plain <| by decide

theorem prefixKey_inj (h : r.Whole) (h' : r'.Whole) : prefixKey r bits = prefixKey r' bits' ↔
    r.family = r'.family ∧ r.masked bits = r'.masked bits' ∧ bits = bits' := by
  constructor
  case mp =>
    intro he
    rw [h.prefixKey_eq, h'.prefixKey_eq] at he
    obtain ⟨he, hb⟩ := JsString.append_inj_of_not_mem rfl (repr_plain (by decide))
      (repr_plain (by decide)) he
    have hc := JsString.intercalate_inj (c := ':') rfl (by simp) (by simp) keyParts_plain
      keyParts_plain he
    obtain ⟨hf, hm⟩ := List.cons.inj hc
    exact ⟨Family.text_inj hf, List.map_injective_iff.mpr (fun _ _ => repr_inj) hm, repr_inj hb⟩
  case mpr =>
    rintro ⟨hf, hm, rfl⟩
    rw [h.prefixKey_eq, h'.prefixKey_eq, hf, hm]

theorem prefixKey_eq_iff (h : r.Whole) (h' : r'.Whole) (hb : bits ≤ r.units.length * r.width) :
    prefixKey r bits = prefixKey r' bits' ↔ SameNetwork (r.toPrefix bits) (r'.toPrefix bits') := by
  rw [prefixKey_inj h h']
  constructor
  case mp =>
    rintro ⟨hf, hm, rfl⟩
    exact ⟨hf, rfl, (masked_eq_iff h h' hf hb).mp hm⟩
  case mpr =>
    rintro ⟨hf, rfl, hi⟩
    exact ⟨hf, (masked_eq_iff h h' hf hb).mpr hi, rfl⟩

end Key

section Mapped

-- The first 80 bits are zero and the next 16 are one.
def Prefix.Mapped (p : Prefix) : Prop :=
  p.family = .v6 ∧ 96 ≤ p.bits ∧ (∀ i < 80, p.bit i = false) ∧ ∀ i < 16, p.bit (80 + i) = true

instance {p : Prefix} : Decidable p.Mapped :=
  inferInstanceAs <| Decidable (_ ∧ _ ∧ _ ∧ _)

-- A mapped prefix counts as the IPv4 prefix behind those bits.
def Prefix.counted (p : Prefix) : Prefix :=
  if p.Mapped then { family := .v4, bit := fun i => p.bit (96 + i), bits := p.bits - 96 } else p

variable {a b c d e f g h : Nat}

theorem exists_of_eight (hl : units.length = 8) :
    ∃ a b c d e f g h, units = [a, b, c, d, e, f, g, h] :=
  match units, hl with
  | [a, b, c, d, e, f, g, h], _ => ⟨a, b, c, d, e, f, g, h, rfl⟩

theorem zero_units_iff (hf : Fit 16 [a, b, c, d, e, f, g, h]) :
    [a, b, c, d, e].all (· = 0) = true ↔ ∀ i < 80, bit 16 [a, b, c, d, e, f, g, h] i = false := by
  have hb (i : Nat) (hi : i < 80) :
      bit 16 [a, b, c, d, e, f, g, h] i = bit 16 [a, b, c, d, e] i :=
    bit_append_left (l := [a, b, c, d, e]) (r := [f, g, h]) (by omega) hi
  have hz (i : Nat) : bit 16 [0, 0, 0, 0, 0] i = false := bit_replicate_zero (n := 5)
  constructor
  case mp =>
    intro h0 i hi
    have hu : [a, b, c, d, e] = [0, 0, 0, 0, 0] := by simpa using h0
    rw [hb i hi, hu, hz]
  case mpr =>
    intro h0
    have hu : [a, b, c, d, e] = [0, 0, 0, 0, 0] := by
      have hf' : Fit 16 [a, b, c, d, e] := fun u hu =>
        hf u <| List.mem_append_left [f, g, h] hu
      refine eq_of_bit hf' (by simp [Fit]) rfl fun i hi => ?_
      rw [← hb i hi, h0 i hi, hz]
    rw [hu]
    decide

theorem ones_unit_iff (hf : Fit 16 [a, b, c, d, e, f, g, h]) :
    f = 65535 ↔ ∀ i < 16, bit 16 [a, b, c, d, e, f, g, h] (80 + i) = true := by
  have hb (i : Nat) (hi : i < 16) :
      bit 16 [a, b, c, d, e, f, g, h] (80 + i) = f.testBit (16 - 1 - i) :=
    bit_word (i := 5) hi
  have ho (i : Nat) : (65535 : Nat).testBit i = decide (i < 16) := Nat.testBit_two_pow_sub_one 16 i
  constructor
  case mp =>
    rintro rfl i hi
    rw [hb i hi, ho, decide_eq_true <| by omega]
  case mpr =>
    intro h1
    refine Nat.eq_of_testBit_eq fun k => ?_
    by_cases hk : k < 16
    · have ht := hb (15 - k) (by omega)
      rw [h1 _ <| by omega, show 16 - 1 - (15 - k) = k by omega] at ht
      rw [← ht, ho, decide_eq_true hk]
    · have hlt : f < 2 ^ k := (hf f <| by simp).trans_le <| Nat.pow_le_pow_right (by omega) (by omega)
      rw [Nat.testBit_lt_two_pow hlt, ho, decide_eq_false hk]

variable {j u : Nat}

theorem testBit_high (hj : j < 8) : (u >>> 8).testBit (8 - 1 - j) = u.testBit (16 - 1 - j) := by
  rw [Nat.testBit_shiftRight]
  congr 1
  omega

theorem testBit_low (hj : j < 8) : (u &&& 255).testBit (8 - 1 - j) = u.testBit (16 - 1 - (8 + j)) := by
  have ho : (255 : Nat).testBit (8 - 1 - j) = decide (8 - 1 - j < 8) :=
    Nat.testBit_two_pow_sub_one 8 _
  rw [Nat.testBit_and, ho, decide_eq_true <| by omega, Bool.and_true]
  congr 1
  omega

-- Two units of 16 bits are four of 8 bits.
theorem bit_octets :
    bit 8 [g >>> 8, g &&& 255, h >>> 8, h &&& 255] i = bit 16 [g, h] i := by
  by_cases hi : i < 32
  · obtain ⟨k, j, hj, rfl⟩ : ∃ k j, j < 8 ∧ i = k * 8 + j :=
      ⟨i / 8, i % 8, Nat.mod_lt _ (by omega), (Nat.div_add_mod' i 8).symm⟩
    have hk : k < 4 := by omega
    rw [bit_word hj]
    interval_cases k
    · rw [show 0 * 8 + j = 0 * 16 + j by omega, bit_word (by omega)]
      exact testBit_high hj
    · rw [show 1 * 8 + j = 0 * 16 + (8 + j) by omega, bit_word (by omega)]
      exact testBit_low hj
    · rw [show 2 * 8 + j = 1 * 16 + j by omega, bit_word (by omega)]
      exact testBit_high hj
    · rw [show 3 * 8 + j = 1 * 16 + (8 + j) by omega, bit_word (by omega)]
      exact testBit_low hj
  · rw [bit_of_le (by omega) (by simpa using hi), bit_of_le (by omega) (by simpa using hi)]

theorem fit_octets (hg : g < 2 ^ 16) (hh : h < 2 ^ 16) :
    Fit 8 [g >>> 8, g &&& 255, h >>> 8, h &&& 255] := by
  have high {u : Nat} (hu : u < 2 ^ 16) : u >>> 8 < 2 ^ 8 := by
    rw [Nat.shiftRight_eq_div_pow]
    omega
  have low {u : Nat} : u &&& 255 < 2 ^ 8 := Nat.lt_succ_of_le Nat.and_le_right
  simp only [Fit, List.forall_mem_cons]
  exact ⟨high hg, low, high hh, low, by simp⟩

theorem Reading.Whole.v6_units (hr : r.Whole) (hf : r.family = .v6) :
    r.width = 16 ∧ ∃ a b c d e f g h, r.units = [a, b, c, d, e, f, g, h] := by
  obtain ⟨hv, -, -⟩ | ⟨-, hw, hl⟩ := hr.shape
  · rw [hv] at hf
    contradiction
  · exact ⟨hw, exists_of_eight hl⟩

-- What is mapped by its units is mapped by its bits.
theorem mapped_iff (bits : Nat) (hr : r.Whole) : (r.toPrefix bits).Mapped ↔
    (r.family = .v6 && 96 ≤ bits && (r.units.take 5).all (· = 0) && r.units.getD 5 0 = 65535) = true := by
  simp only [Bool.and_eq_true, decide_eq_true_eq, and_assoc]
  refine and_congr_right fun hf => and_congr_right fun _ => ?_
  obtain ⟨hw, a, b, c, d, e, f, g, h, hu⟩ := hr.v6_units hf
  have hfit : Fit 16 [a, b, c, d, e, f, g, h] := by
    rw [← hu, ← hw]
    exact hr.fit
  simp only [Reading.toPrefix, hw, hu]
  exact (and_congr (zero_units_iff hfit) (ones_unit_iff hfit)).symm

theorem unmap_whole (hr : r.Whole) : (unmap r bits).1.Whole := by
  rw [unmap]
  split
  case isTrue hm =>
    obtain ⟨hf, -⟩ := (mapped_iff bits hr).mpr hm
    obtain ⟨hw, a, b, c, d, e, f, g, h, hu⟩ := hr.v6_units hf
    have hfit := hr.fit
    rw [hw, hu] at hfit
    exact ⟨.inl ⟨rfl, rfl, rfl⟩, by
      rw [hu]
      exact fit_octets (hfit g <| by simp) (hfit h <| by simp)⟩
  case isFalse => exact hr

theorem unmap_le (hr : r.Whole) (hb : bits ≤ r.units.length * r.width) :
    (unmap r bits).2 ≤ (unmap r bits).1.units.length * (unmap r bits).1.width := by
  rw [unmap]
  split
  case isTrue hm =>
    obtain ⟨hf, -⟩ := (mapped_iff bits hr).mpr hm
    obtain ⟨hw, a, b, c, d, e, f, g, h, hu⟩ := hr.v6_units hf
    rw [hw, hu] at hb
    simp only [List.length_cons, List.length_nil] at hb ⊢
    omega
  case isFalse => exact hb

theorem unmap_toPrefix (hr : r.Whole) :
    (unmap r bits).1.toPrefix (unmap r bits).2 = (r.toPrefix bits).counted := by
  by_cases hm : (r.toPrefix bits).Mapped
  · rw [Prefix.counted, if_pos hm, unmap, if_pos <| (mapped_iff _ hr).mp hm]
    obtain ⟨hf, -⟩ := hm
    obtain ⟨hw, a, b, c, d, e, f, g, h, hu⟩ := hr.v6_units hf
    simp only [Reading.toPrefix, hw, hu, Prefix.mk.injEq, true_and, and_true]
    funext i
    exact bit_octets.trans (bit_append_right (l := [a, b, c, d, e, f]) <| by omega).symm
  · rw [Prefix.counted, if_neg hm, unmap, if_neg <| mt (mapped_iff _ hr).mpr hm]

end Mapped

section Text

variable {hostname : String → Option String} {parse : String → Option Address} {input : String}
variable {rest : List Char} {size : Nat}

-- The URL parser gives the canonical text of the address that it reads between the brackets.
def CanonicalText (hostname : String → Option String) (parse : String → Option Address) : Prop :=
  ∀ ip, isLiteral ip.toList = true →
    hostname ip = (parse ip).map fun address => "[" ++ address.text ++ "]"

-- The text of an address: four decimal octets, or what the URL parser reads as eight units.
inductive Addresses (parse : String → Option Address) : List Char → Reading → Prop
  | v4 {octets} (four : octets.length = 4)
      (octet : ∀ ds ∈ octets, isDigits ds = true ∧ Nat.ofDigitChars 10 ds 0 ≤ 255) :
      Addresses parse (['.'].intercalate octets)
        { units := octets.map (Nat.ofDigitChars 10 · 0), width := 8, family := .v4 }
  | v6 {ip address} (colon : ':' ∈ ip) (parsed : parse (.ofList ip) = some address) :
      Addresses parse ip { units := address.units, width := 16, family := .v6 }

-- A length behind a slash, or none for the whole address.
def WrittenLength (size bits : Nat) (rest : List Char) : Prop :=
  rest = [] ∧ bits = size ∨ ∃ ds, rest = '/' :: ds ∧ isDigits ds = true ∧
    Nat.ofDigitChars 10 ds 0 = bits ∧ bits ≤ size

-- The input is the text of a prefix.
def Denotes (parse : String → Option Address) (input : String) (p : Prefix) : Prop :=
  ∃ ip rest r, (JsString.trim input).toList = ip ++ rest ∧ '/' ∉ ip ∧ Addresses parse ip r ∧
    WrittenLength (r.units.length * r.width) p.bits rest ∧ p = r.toPrefix p.bits

theorem WrittenLength.le (h : WrittenLength size bits rest) : bits ≤ size := by
  obtain ⟨-, rfl⟩ | ⟨_, -, -, -, hb⟩ := h
  · exact Nat.le_refl _
  · exact hb

theorem isDigits_iff {ds : List Char} :
    isDigits ds = true ↔ ds ≠ [] ∧ ∀ c ∈ ds, c.isDigit = true := by
  simp [isDigits]

theorem readPrefix_iff : readPrefix hostname input = some (r, bits) ↔
    ∃ ip rest, (JsString.trim input).toList = ip ++ rest ∧ '/' ∉ ip ∧
      readAddress hostname ip = some r ∧ WrittenLength (r.units.length * r.width) bits rest := by
  rw [readPrefix]
  constructor
  case mp =>
    intro h
    have hj : ['/'].intercalate ((JsString.trim input).toList.splitOn '/') =
        (JsString.trim input).toList :=
      List.intercalate_splitOn '/'
    have hn {p : List Char} := JsString.not_mem_of_mem_splitOn (p := p)
      (l := (JsString.trim input).toList) (c := '/')
    split at h
    case h_1 ip hs =>
      rw [hs] at hj hn
      obtain ⟨r, hr, he⟩ := Option.map_eq_some_iff.mp h
      obtain ⟨rfl, rfl⟩ := Prod.mk.inj he
      exact ⟨ip, [], by simpa [List.intercalate] using hj.symm, hn <| .head _, hr, .inl ⟨rfl, rfl⟩⟩
    case h_2 ip ds hs =>
      rw [hs] at hj hn
      split at h
      case isTrue => simp at h
      case isFalse hd =>
        obtain ⟨r, hr, hb⟩ := Option.bind_eq_some_iff.mp h
        dsimp only at hb
        split at hb
        case isTrue => simp at hb
        case isFalse hle =>
          obtain ⟨rfl, rfl⟩ := Prod.mk.inj <| Option.some_inj.mp hb
          have ht : (JsString.trim input).toList = ip ++ '/' :: ds := by
            rw [← hj, List.intercalate_cons_cons, List.intercalate_singleton, List.append_assoc,
              List.singleton_append]
          exact ⟨ip, _, ht, hn <| .head _, hr, .inr ⟨ds, rfl, by simpa using hd, rfl, by omega⟩⟩
    case h_3 => simp at h
  case mpr =>
    rintro ⟨ip, rest, ht, hn, hr, ⟨rfl, rfl⟩ | ⟨ds, rfl, hd, rfl, hle⟩⟩
    · rw [ht, List.append_nil, List.splitOn_eq_singleton hn]
      simp [hr]
    · have hs : '/' ∉ ds := fun hm => absurd ((isDigits_iff.mp hd).2 '/' hm) <| by decide
      rw [ht, List.splitOn_append_cons_self, List.splitOn_eq_singleton hn,
        List.splitOn_eq_singleton hs]
      simp [hr, hd, hle]

theorem isOctet_inv {ds : List Char} (h : isOctet ds = true) :
    isDigits ds = true ∧ Nat.ofDigitChars 10 ds 0 ≤ 255 := by
  simp only [isOctet, Bool.and_eq_true, Bool.or_eq_true, decide_eq_true_eq] at h
  obtain ⟨rfl | ⟨⟨hd, -⟩, -⟩, hv⟩ := h
  · exact ⟨by decide, hv⟩
  · exact ⟨hd, hv⟩

theorem v4_inv {text : List Char} (h : v4 text = some units) : ∃ octets, octets.length = 4 ∧
    (∀ ds ∈ octets, isDigits ds = true ∧ Nat.ofDigitChars 10 ds 0 ≤ 255) ∧
    text = ['.'].intercalate octets ∧ units = octets.map (Nat.ofDigitChars 10 · 0) := by
  simp only [v4] at h
  split at h
  case isTrue hc =>
    simp only [Bool.and_eq_true, decide_eq_true_eq, List.all_eq_true] at hc
    refine ⟨text.splitOn '.', hc.1, fun ds hd => isOctet_inv <| hc.2 ds hd, ?_, ?_⟩
    · exact (List.intercalate_splitOn '.').symm
    · exact (Option.some_inj.mp h).symm
  case isFalse => simp at h

theorem slice_brackets {t : String} : (("[" ++ t ++ "]").toList.drop 1).dropLast = t.toList := by
  simp

-- What is read is the address that the text is of.
theorem readAddress_inv (hp : CanonicalText hostname parse) (h : readAddress hostname ip = some r) :
    Addresses parse ip r ∧ r.Whole := by
  rw [readAddress] at h
  split at h
  case isTrue hc =>
    split at h
    case isTrue  => simp at h
    case isFalse hi =>
      obtain ⟨host, hh, rfl⟩ := Option.map_eq_some_iff.mp h
      rw [hp _ <| by simpa using hi] at hh
      obtain ⟨address, ha, rfl⟩ := Option.map_eq_some_iff.mp hh
      have he : expand (("[" ++ address.text ++ "]").toList.drop 1).dropLast = address.units := by
        rw [slice_brackets, Address.text, String.toList_ofList, expand_textOf address.length]
      rw [he]
      exact ⟨.v6 hc ha, .inr ⟨rfl, rfl, address.length⟩, address.bound⟩
  case isFalse =>
    obtain ⟨units, hv, rfl⟩ := Option.map_eq_some_iff.mp h
    obtain ⟨octets, hl, ho, rfl, rfl⟩ := v4_inv hv
    refine ⟨.v4 hl ho, .inl ⟨rfl, rfl, by simpa using hl⟩, fun u hu => ?_⟩
    obtain ⟨ds, hd, rfl⟩ := List.mem_map.mp hu
    exact Nat.lt_succ_of_le (ho ds hd).2

theorem colon_not_mem {octets : List (List Char)}
    (ho : ∀ ds ∈ octets, isDigits ds = true ∧ Nat.ofDigitChars 10 ds 0 ≤ 255) :
    ':' ∉ ['.'].intercalate octets :=
  JsString.not_mem_intercalate (by decide) fun ds hd hm =>
    absurd ((isDigits_iff.mp (ho ds hd).1).2 ':' hm) <| by decide

theorem Addresses.unique (ha : Addresses parse ip r) (hb : Addresses parse ip r') : r = r' := by
  cases ha
  case v4 octets hl ho =>
    have hs {octets : List (List Char)} (hl : octets.length = 4)
        (ho : ∀ ds ∈ octets, isDigits ds = true ∧ Nat.ofDigitChars 10 ds 0 ≤ 255) :
        (['.'].intercalate octets).splitOn '.' = octets :=
      List.splitOn_intercalate _
        (fun ds hd hm => absurd ((isDigits_iff.mp (ho ds hd).1).2 '.' hm) <| by decide)
        (List.ne_nil_of_length_pos <| by omega)
    generalize he : ['.'].intercalate octets = text at hb
    cases hb
    case v4 octets' hl' ho' => rw [← hs hl ho, he, hs hl' ho']
    case v6 address hc hp   => exact absurd (he ▸ hc) <| colon_not_mem ho
  case v6 address hc hp =>
    cases hb
    case v4 octets hl ho       => exact absurd hc <| colon_not_mem ho
    case v6 address' hc' hp' => rw [Option.some_inj.mp <| hp.symm.trans hp']

theorem WrittenLength.takeWhile (h : WrittenLength size bits rest) (hn : '/' ∉ ip) :
    (ip ++ rest).takeWhile (· ≠ '/') = ip := by
  rw [List.takeWhile_append_of_pos fun c hc => by simpa using ne_of_mem_of_not_mem hc hn]
  obtain ⟨rfl, -⟩ | ⟨ds, rfl, -⟩ := h <;> simp

theorem WrittenLength.unique (h : WrittenLength size bits rest) (h' : WrittenLength size bits' rest) :
    bits = bits' := by
  obtain ⟨rfl, rfl⟩ | ⟨ds, rfl, -, hb, -⟩ := h <;> obtain ⟨h', rfl⟩ | ⟨ds', h', -, hb', -⟩ := h'
  · rfl
  · simp at h'
  · simp at h'
  · obtain rfl := (List.cons.inj h').2
    exact hb.symm.trans hb'

-- What an accepted input denotes is what is read of it.
theorem readPrefix_spec (hp : CanonicalText hostname parse)
    (h : readPrefix hostname input = some (r, bits)) :
    r.Whole ∧ bits ≤ r.units.length * r.width ∧
      ∀ p, Denotes parse input p ↔ p = r.toPrefix bits := by
  obtain ⟨ip, rest, ht, hn, hr, hl⟩ := readPrefix_iff.mp h
  obtain ⟨ha, hw⟩ := readAddress_inv hp hr
  refine ⟨hw, hl.le, fun p => ⟨?_, ?_⟩⟩
  · rintro ⟨ip', rest', r', ht', hn', ha', hl', hp'⟩
    have he := ht.symm.trans ht'
    obtain rfl : ip = ip' := by rw [← hl.takeWhile hn, he, hl'.takeWhile hn']
    obtain rfl := List.append_cancel_left he
    obtain rfl := ha.unique ha'
    rw [hp', hl.unique hl']
  · rintro rfl
    exact ⟨ip, rest, r, ht, hn, ha, hl, rfl⟩

-- Two keys are equal where the inputs denote the same network.
theorem networkPrefixKey_eq_iff (hp : CanonicalText hostname parse) {input' key key' : String}
    (h : networkPrefixKey hostname input = some key)
    (h' : networkPrefixKey hostname input' = some key') :
    ∃ p q, (∀ p', Denotes parse input p' ↔ p' = p) ∧ (∀ q', Denotes parse input' q' ↔ q' = q) ∧
      (key = key' ↔ SameNetwork p.counted q.counted) := by
  obtain ⟨⟨r, bits⟩, hr, rfl⟩ := Option.map_eq_some_iff.mp h
  obtain ⟨⟨r', bits'⟩, hr', rfl⟩ := Option.map_eq_some_iff.mp h'
  obtain ⟨hw, hb, hd⟩ := readPrefix_spec hp hr
  obtain ⟨hw', hb', hd'⟩ := readPrefix_spec hp hr'
  refine ⟨_, _, hd, hd', ?_⟩
  rw [← unmap_toPrefix hw, ← unmap_toPrefix hw']
  exact prefixKey_eq_iff (unmap_whole hw) (unmap_whole hw') <| unmap_le hw hb

end Text

end NetworkPrefix
