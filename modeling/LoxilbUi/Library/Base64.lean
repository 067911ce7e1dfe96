import Mathlib.Data.List.DropRight
import Mathlib.Data.List.TakeWhile

-- Bytes as text in base64: three of them are four characters of six bits, and `=` fills up what is left over.

namespace Base64

def alphabet : List Char :=
  "ABCDEFGHIJKLMNOPQRSTUVWXYZabcdefghijklmnopqrstuvwxyz0123456789+/".toList

def digit (n : Nat) : Char :=
  alphabet.getD n 'A'

def value (c : Char) : Option Nat :=
  alphabet.idxOf? c

-- The bits of the bytes, six at a time, the last ones filled up with zeros.
def sextets : List UInt8 → List Nat
  | []              => []
  | [x]             => [x.toNat / 4, x.toNat % 4 * 16]
  | [x, y]          => [x.toNat / 4, x.toNat % 4 * 16 + y.toNat / 16, y.toNat % 16 * 4]
  | x :: y :: z :: l =>
    [x.toNat / 4, x.toNat % 4 * 16 + y.toNat / 16, y.toNat % 16 * 4 + z.toNat / 64, z.toNat % 64] ++ sextets l

-- The bytes that groups of six bits hold. The bits behind the last byte count for nothing; no byte takes a single group.
def bytes : List Nat → Option (List UInt8)
  | []                    => some []
  | [_]                   => none
  | [a, b]                => some [.ofNat (a * 4 + b / 16)]
  | [a, b, c]             => some [.ofNat (a * 4 + b / 16), .ofNat (b % 16 * 16 + c / 4)]
  | a :: b :: c :: d :: l =>
    (bytes l).map ([.ofNat (a * 4 + b / 16), .ofNat (b % 16 * 16 + c / 4), .ofNat (c % 4 * 64 + d)] ++ ·)

-- The characters of some bytes, without the ones that only fill up.
def codes (b : List UInt8) : List Char :=
  (sextets b).map digit

def read (c : List Char) : Option (List UInt8) :=
  (c.mapM value).bind bytes

-- How many characters are missing to a multiple of four.
def padding (n : Nat) : Nat :=
  (4 - n % 4) % 4

variable {b : List UInt8} {c : List Char} {n : Nat}

theorem value_digit (h : n < 64) : value (digit n) = some n := by
  have hv : (List.range 64).all fun n => value (digit n) = some n := by decide
  simpa using List.all_eq_true.mp hv n <| List.mem_range.mpr h

theorem mem_alphabet_of_value {x : Char} (h : value x = some n) : x ∈ alphabet := by
  by_contra hx
  rw [value, List.idxOf?_eq_none_iff.mpr hx] at h
  cases h

theorem sextets_lt : ∀ n ∈ sextets b, n < 64 := by
  induction b using sextets.induct
  case case1                => simp [sextets]
  case case2 x              =>
    have := x.toNat_lt
    simp [sextets]
    omega
  case case3 x y            =>
    have := x.toNat_lt
    have := y.toNat_lt
    simp [sextets]
    omega
  case case4 x y z l hi     =>
    have := x.toNat_lt
    have := y.toNat_lt
    have := z.toNat_lt
    simp only [sextets, List.forall_mem_append]
    refine ⟨?_, hi⟩
    simp
    omega

theorem ofNat_eq {x : UInt8} (h : n = x.toNat) : UInt8.ofNat n = x := by
  rw [h, UInt8.ofNat_toNat]

theorem bytes_sextets : bytes (sextets b) = some b := by
  induction b using sextets.induct
  case case1                => rfl
  case case2 x              =>
    have hx : UInt8.ofNat (x.toNat / 4 * 4 + x.toNat % 4 * 16 / 16) = x := ofNat_eq <| by omega
    rw [sextets, bytes, hx]
  case case3 x y            =>
    have := y.toNat_lt
    have hx : UInt8.ofNat (x.toNat / 4 * 4 + (x.toNat % 4 * 16 + y.toNat / 16) / 16) = x := ofNat_eq <| by omega
    have hy : UInt8.ofNat ((x.toNat % 4 * 16 + y.toNat / 16) % 16 * 16 + y.toNat % 16 * 4 / 4) = y :=
      ofNat_eq <| by omega
    rw [sextets, bytes, hx, hy]
  case case4 x y z l hi     =>
    have := y.toNat_lt
    have := z.toNat_lt
    have hx : UInt8.ofNat (x.toNat / 4 * 4 + (x.toNat % 4 * 16 + y.toNat / 16) / 16) = x := ofNat_eq <| by omega
    have hy : UInt8.ofNat ((x.toNat % 4 * 16 + y.toNat / 16) % 16 * 16 + (y.toNat % 16 * 4 + z.toNat / 64) / 4) = y :=
      ofNat_eq <| by omega
    have hz : UInt8.ofNat ((y.toNat % 16 * 4 + z.toNat / 64) % 4 * 64 + z.toNat % 64) = z := ofNat_eq <| by omega
    simp only [sextets, List.cons_append, List.nil_append, bytes, hx, hy, hz, hi, Option.map_some]

theorem length_sextets_mod : (sextets b).length % 4 ≠ 1 := by
  induction b using sextets.induct
  case case4 x y z l hi =>
    simp only [sextets, List.length_append, List.length_cons, List.length_nil]
    omega
  all_goals simp [sextets]

theorem mapM_value_map_digit {l : List Nat} (h : ∀ n ∈ l, n < 64) : (l.map digit).mapM value = some l := by
  induction l
  case nil         => rfl
  case cons n l hi =>
    obtain ⟨hn, hl⟩ := List.forall_mem_cons.mp h
    simp [value_digit hn, hi hl]

theorem read_codes : read (codes b) = some b := by
  rw [read, codes, mapM_value_map_digit sextets_lt, Option.bind_some, bytes_sextets]

theorem codes_mem {x : Char} (h : x ∈ codes b) : x ∈ alphabet := by
  obtain ⟨n, hn, rfl⟩ := List.mem_map.mp h
  exact mem_alphabet_of_value <| value_digit <| sextets_lt n hn

theorem length_codes_mod : (codes b).length % 4 ≠ 1 := by
  rw [codes, List.length_map]
  exact length_sextets_mod

theorem value_isSome_of_mapM {l : List Nat} (h : c.mapM value = some l) : ∀ x ∈ c, (value x).isSome := by
  induction c generalizing l
  case nil         => simp
  case cons x c hi =>
    simp only [List.mapM_cons, Option.bind_eq_bind, Option.bind_eq_some_iff] at h
    obtain ⟨n, hn, m, hm, -⟩ := h
    exact List.forall_mem_cons.mpr ⟨by rw [hn]; rfl, hi hm⟩

theorem read_mem (h : read c = some b) : ∀ x ∈ c, x ∈ alphabet := by
  obtain ⟨l, hl, -⟩ := Option.bind_eq_some_iff.mp h
  intro x hx
  obtain ⟨n, hn⟩ := Option.isSome_iff_exists.mp <| value_isSome_of_mapM hl x hx
  exact mem_alphabet_of_value hn

section Atob

-- The blanks that are left out of a text before it is read.
def isSpace (x : Char) : Bool :=
  x.toNat ∈ [0x9, 0xA, 0xC, 0xD, 0x20]

-- A text of whole groups loses up to two characters that fill it up.
def unpad (c : List Char) : List Char :=
  if c.length % 4 = 0 then
    match c.reverse with
    | '=' :: '=' :: r => r.reverse
    | '=' :: r        => r.reverse
    | _               => c
  else c

-- `atob(text)`, the bytes of what it returns.
def atob (text : String) : Option (List UInt8) :=
  read <| unpad <| text.toList.filter (!isSpace ·)

theorem unpad_spec : ∃ k ≤ padding (unpad c).length, c = unpad c ++ List.replicate k '=' := by
  rw [unpad]
  split
  case isFalse   => exact ⟨0, Nat.zero_le _, (List.append_nil c).symm⟩
  case isTrue hl =>
    split
    case h_1 r hr =>
      obtain rfl : c = r.reverse ++ ['=', '='] := by simpa using congrArg List.reverse hr
      exact ⟨2, by simp [padding] at hl ⊢; omega, rfl⟩
    case h_2 r _ hr =>
      obtain rfl : c = r.reverse ++ ['='] := by simpa using congrArg List.reverse hr
      exact ⟨1, by simp [padding] at hl ⊢; omega, rfl⟩
    case h_3        => exact ⟨0, Nat.zero_le _, (List.append_nil c).symm⟩

theorem unpad_append (h : '=' ∉ c) (hl : c.length % 4 ≠ 1) :
    unpad (c ++ List.replicate (padding c.length) '=') = c := by
  have hm : (c ++ List.replicate (padding c.length) '=').length % 4 = 0 := by
    rw [List.length_append, List.length_replicate, padding]
    omega
  have hp : padding c.length = 0 ∨ padding c.length = 1 ∨ padding c.length = 2 := by
    rw [padding]
    omega
  have hr (r : List Char) : c.reverse ≠ '=' :: r := fun hc => by
    have hm : '=' ∈ c.reverse := hc ▸ List.mem_cons_self
    exact h <| List.mem_reverse.mp hm
  rw [unpad, if_pos hm, List.reverse_append, List.reverse_replicate]
  obtain hp | hp | hp := hp <;> rw [hp]
  case inl     =>
    split
    case h_1 r hq   => exact absurd hq <| hr _
    case h_2 r _ hq => exact absurd hq <| hr _
    case h_3        => exact List.append_nil c
  case inr.inl =>
    split
    case h_1 r hq   => exact absurd (List.cons.inj hq).2 <| hr _
    case h_2 r _ hq => rw [← (List.cons.inj hq).2]; exact List.reverse_reverse c
    case h_3 hn     => exact absurd rfl <| hn _
  case inr.inr => exact List.reverse_reverse c

end Atob

-- The text of the bytes, filled up to whole groups.
def encode (b : List UInt8) : String :=
  .ofList <| codes b ++ List.replicate (padding (codes b).length) '='

theorem read_encode : read (unpad (encode b).toList) = some b := by
  have hp : '=' ∉ codes b := fun hm => absurd (codes_mem hm) <| by decide
  rw [encode, String.toList_ofList, unpad_append hp length_codes_mod, read_codes]

end Base64
