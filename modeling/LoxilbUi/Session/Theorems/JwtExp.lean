import LoxilbUi.Session.JwtExp

-- Which tokens say when they expire, and what is read of them.

namespace Session

open Base64 (codes padding read)

-- Base64 of either alphabet or of both, with all, some or none of the characters that fill it up.
def Encodes (p : List Char) (b : List UInt8) : Prop :=
  ∃ c k, p = c ++ .replicate k '=' ∧ k ≤ padding c.length ∧ c.map toBase64 = codes b

-- The same where blanks are left out, and where the bits behind the last byte may be any.
def Spells (p : List Char) (b : List UInt8) : Prop :=
  ∃ c k, p.filter (!Base64.isSpace ·) = c ++ .replicate k '=' ∧ k ≤ padding c.length ∧
    read (c.map toBase64) = some b

def asciiBytes (text : String) : List UInt8 :=
  text.toList.map fun x => .ofNat x.toNat

-- What is asked of a token whose payload is claims in the encoding `E`, and of any other, whose payload is none in `F`.
structure ExpDecoded (E F : List Char → List UInt8 → Prop) (parse : String → Option JsValue) : Prop where
  returns : ∀ header signature text payload : String, ∀ claims d, '.' ∉ header.toList → '.' ∉ signature.toList →
    (∀ x ∈ text.toList, x.toNat < 128) → parse text = some (.object claims) →
    (JsValue.object claims).get "exp" = .number (.finite d) → E payload.toList (asciiBytes text) →
    parseJwtExp parse (header ++ "." ++ payload ++ "." ++ signature) = .ok ((JsNumber.finite d).mul 1000)
  throws : ∀ token, (∀ payload b claims d, (JsString.split token '.')[1]? = some payload → F payload.toList b →
    parse (binaryString b) = some claims → claims.get "exp" ≠ .number (.finite d)) →
    ∃ message, parseJwtExp parse token = .error message

variable {parse : String → Option JsValue} {token header payload signature text : String} {b : List UInt8}
  {c p : List Char} {k : Nat}

section Bytes

theorem binaryString_asciiBytes (h : ∀ x ∈ text.toList, x.toNat < 128) : binaryString (asciiBytes text) = text := by
  have hx : ∀ x ∈ text.toList, Char.ofNat (UInt8.ofNat x.toNat).toNat = x := fun x hm => by
    have := h x hm
    rw [UInt8.toNat_ofNat', Nat.mod_eq_of_lt (by omega), Char.ofNat_toNat]
  rw [binaryString, asciiBytes, List.map_map]
  refine String.toList_inj.mp ?_
  rw [String.toList_ofList]
  exact (List.map_congr_left hx).trans <| List.map_id' _

theorem asciiBytes_eq_nil_iff : asciiBytes text = [] ↔ text = "" := by
  rw [asciiBytes, List.map_eq_nil_iff, String.toList_eq_nil_iff]

end Bytes

section Encoding

def normalized (payload : String) : String :=
  let base64 := String.ofList <| payload.toList.map toBase64
  base64 ++ .ofList (.replicate ((4 - JsString.length base64 % 4) % 4) '=')

theorem equals_not_mem_codes : '=' ∉ codes b := fun h =>
  absurd (Base64.codes_mem h) <| by decide

theorem toBase64_equals {x : Char} : toBase64 x = '=' ↔ x = '=' := by
  simp only [toBase64]
  split
  case isTrue h  => simp [h]
  case isFalse h =>
    split
    case isTrue h' => simp [h']
    case isFalse   => rfl

theorem isSpace_toBase64 {x : Char} : Base64.isSpace (toBase64 x) = Base64.isSpace x := by
  simp only [toBase64]
  split
  case isTrue h  => rw [h]; decide
  case isFalse h =>
    split
    case isTrue h' => rw [h']; decide
    case isFalse   => rfl

theorem alphabet_ascii : ∀ x ∈ Base64.alphabet, x.toNat < 128 ∧ Base64.isSpace x = false := by
  have h : Base64.alphabet.all fun x => decide (x.toNat < 128) && !Base64.isSpace x := by decide
  intro x hx
  simpa using List.all_eq_true.mp h x hx

theorem length_ascii {s : String} (h : ∀ x ∈ s.toList, x.toNat < 128) : JsString.length s = s.toList.length := by
  rw [JsString.length]
  generalize s.toList = l at h
  induction l
  case nil         => rfl
  case cons x l hi =>
    obtain ⟨hx, hl⟩ := List.forall_mem_cons.mp h
    have hv : x.val < 0x10000 := UInt32.lt_iff_toNat_lt.mpr <| Nat.lt_trans hx <| by decide
    rw [List.map_cons, List.sum_cons, if_pos hv, hi hl, List.length_cons, Nat.add_comm]

theorem normalized_toList (h : payload.toList = c ++ .replicate k '=') (hc : c.map toBase64 = codes b)
    (hk : k ≤ padding c.length) :
    (normalized payload).toList = codes b ++ .replicate (padding (codes b).length) '=' := by
  have hm : payload.toList.map toBase64 = codes b ++ .replicate k '=' := by
    rw [h, List.map_append, hc, List.map_replicate]
    rfl
  have hl : JsString.length (.ofList <| payload.toList.map toBase64) = c.length + k := by
    rw [length_ascii, String.toList_ofList, List.length_map, h, List.length_append, List.length_replicate]
    rw [String.toList_ofList, hm]
    intro x hx
    obtain hx | hx := List.mem_append.mp hx
    · exact (alphabet_ascii x <| Base64.codes_mem hx).1
    · rw [(List.mem_replicate.mp hx).2]
      decide
  have hn : c.length = (codes b).length := by rw [← hc, List.length_map]
  have hp : k + (4 - (c.length + k) % 4) % 4 = padding (codes b).length := by
    have hmod := Base64.length_codes_mod (b := b)
    rw [← hn] at hmod ⊢
    rw [padding] at hk ⊢
    omega
  rw [normalized, String.toList_append, String.toList_ofList, String.toList_ofList, hl, hm, List.append_assoc,
    List.replicate_append_replicate, hp]

theorem atob_normalized (h : Encodes payload.toList b) : Base64.atob (normalized payload) = some b := by
  obtain ⟨c, k, hp, hk, hc⟩ := h
  have hf : (codes b ++ .replicate (padding (codes b).length) '=').filter (!Base64.isSpace ·) =
      codes b ++ .replicate (padding (codes b).length) '=' := by
    refine List.filter_eq_self.mpr fun x hx => ?_
    obtain hx | hx := List.mem_append.mp hx
    · rw [(alphabet_ascii x <| Base64.codes_mem hx).2]
      rfl
    · rw [(List.mem_replicate.mp hx).2]
      decide
  rw [Base64.atob, normalized_toList hp hc hk, hf, Base64.unpad_append equals_not_mem_codes Base64.length_codes_mod,
    Base64.read_codes]

-- Of two ways to fill up one text, the one behind a text that does not hold the filling is the longer.
theorem exists_replicate {x : Char} {u v : List Char} {i j : Nat} (hx : x ∉ u)
    (h : v ++ .replicate j x = u ++ .replicate i x) : ∃ k ≤ i, v = u ++ .replicate k x := by
  obtain ⟨m, hu, hm⟩ | ⟨m, hv, hm⟩ := List.append_eq_append_iff.mp h
  case inl =>
    have hn : m = [] := List.eq_nil_iff_forall_not_mem.mpr fun y hy => by
      have hr : y ∈ List.replicate j x := hm ▸ List.mem_append_left _ hy
      exact hx <| (List.mem_replicate.mp hr).2 ▸ hu ▸ List.mem_append_right _ hy
    exact ⟨0, Nat.zero_le _, by rw [hu, hn, List.append_nil, List.replicate_zero, List.append_nil]⟩
  case inr =>
    have hk := congrArg List.length hm
    rw [List.length_append, List.length_replicate, List.length_replicate] at hk
    refine ⟨m.length, by omega, ?_⟩
    have hx : m = .replicate m.length x :=
      List.eq_replicate_of_mem fun y hy => (List.mem_replicate.mp <| hm ▸ List.mem_append_left _ hy).2
    rw [hv, ← hx]

theorem spells_of_atob (h : Base64.atob (normalized payload) = some b) : Spells payload.toList b := by
  rw [Base64.atob, normalized, String.toList_append, String.toList_ofList, String.toList_ofList, List.filter_append,
    List.filter_map, List.filter_replicate_of_pos (by decide)] at h
  have hs : ((!Base64.isSpace ·) ∘ toBase64) = (!Base64.isSpace ·) := funext fun x => by simp [isSpace_toBase64]
  rw [hs] at h
  generalize (4 - _) % 4 = j at h
  obtain ⟨i, hi, hu⟩ := Base64.unpad_spec (c := (payload.toList.filter (!Base64.isSpace ·)).map toBase64 ++ .replicate j '=')
  generalize Base64.unpad _ = u at h hi hu
  have he : '=' ∉ u := fun hm => absurd (Base64.read_mem h _ hm) <| by decide
  obtain ⟨k, hk, hf⟩ := exists_replicate he hu
  obtain ⟨c, r, hp, rfl, hr⟩ := List.map_eq_append_iff.mp hf
  obtain ⟨hl, hr⟩ := List.eq_replicate_iff.mp hr
  have hr : r = .replicate k '=' := List.eq_replicate_iff.mpr ⟨by simpa using hl, fun x hx =>
    toBase64_equals.mp <| hr _ <| List.mem_map_of_mem hx⟩
  rw [List.length_map] at hi
  exact ⟨c, k, hr ▸ hp, hk.trans hi, h⟩

end Encoding

section Token

theorem split_second (hh : '.' ∉ header.toList) (hp : '.' ∉ payload.toList) :
    (JsString.split (header ++ "." ++ payload ++ "." ++ signature) '.')[1]? = some payload := by
  have hs : (header ++ "." ++ payload ++ "." ++ signature).toList =
      header.toList ++ '.' :: (payload.toList ++ '.' :: signature.toList) := by
    simp [String.toList_append]
  rw [JsString.split, hs, List.splitOn_append_cons_self_of_not_mem hh, List.splitOn_append_cons_self_of_not_mem hp]
  simp

theorem parseJwtExp_ok_iff {n : JsNumber} : parseJwtExp parse token = .ok n ↔
    ∃ payload b claims d, (JsString.split token '.')[1]? = some payload ∧ payload ≠ "" ∧
      Base64.atob (normalized payload) = some b ∧ parse (binaryString b) = some claims ∧
      claims.get "exp" = .number (.finite d) ∧ n = (JsNumber.finite d).mul 1000 := by
  constructor
  case mp =>
    intro h
    rw [parseJwtExp] at h
    split at h
    case h_1           => cases h
    case h_2           => cases h
    case h_3 payload hn hs =>
      dsimp only at h
      split at h
      case h_1           => cases h
      case h_2 claims hc =>
        split at h
        case h_2     => cases h
        case h_1 d hd =>
          obtain ⟨b, hb, hp⟩ := Option.bind_eq_some_iff.mp hc
          exact ⟨payload, b, claims, d, hs, hn, hb, hp, hd, (Except.ok.inj h).symm⟩
  case mpr =>
    rintro ⟨payload, b, claims, d, hs, hn, hb, hp, hd, rfl⟩
    rw [parseJwtExp, hs]
    split
    case h_1 h     => cases h
    case h_2 h     => exact absurd (Option.some.inj h) hn
    case h_3 _ _ h =>
      obtain rfl := Option.some.inj h
      have hc : ((Base64.atob <| normalized payload).bind fun b => parse (binaryString b)) = some claims :=
        Option.bind_eq_some_iff.mpr ⟨b, hb, hp⟩
      rw [normalized] at hc
      dsimp only
      rw [hc]
      dsimp only
      rw [hd]

end Token

theorem mem_of_map_toBase64 (h : c.map toBase64 = codes b) : ∀ x ∈ c, x ≠ '.' := by
  rintro x hx rfl
  have hm : toBase64 '.' ∈ codes b := h ▸ List.mem_map_of_mem hx
  exact absurd (Base64.codes_mem hm) <| by decide

theorem encodes_no_dot (h : Encodes p b) : '.' ∉ p := by
  obtain ⟨c, k, rfl, -, hc⟩ := h
  intro hm
  obtain hm | hm := List.mem_append.mp hm
  · exact mem_of_map_toBase64 hc _ hm rfl
  · exact absurd (List.mem_replicate.mp hm).2 <| by decide

theorem codes_eq_nil (h : codes b = []) : b = [] := by
  have hr := Base64.read_codes (b := b)
  rw [h] at hr
  exact (Option.some.inj hr).symm

theorem encodes_nil (h : Encodes [] b) : b = [] := by
  obtain ⟨c, k, hp, -, hc⟩ := h
  obtain ⟨rfl, -⟩ := List.append_eq_nil_iff.mp hp.symm
  exact codes_eq_nil hc.symm

-- A token says when it expires exactly when its payload is claims that say so; any other is refused.
theorem parseJwtExp_decodes (hparse : parse "" = none) : ExpDecoded Encodes Spells parse where
  returns header signature text payload claims d hh _ ha hc hd he := by
    refine parseJwtExp_ok_iff.mpr ⟨payload, asciiBytes text, .object claims, d, ?_, ?_, atob_normalized he, ?_, hd, rfl⟩
    · exact split_second hh <| encodes_no_dot he
    · rintro rfl
      rw [asciiBytes_eq_nil_iff.mp <| encodes_nil he, hparse] at hc
      cases hc
    · rwa [binaryString_asciiBytes ha]
  throws token h := by
    cases hr : parseJwtExp parse token
    case error message => exact ⟨message, rfl⟩
    case ok n          =>
      obtain ⟨payload, b, claims, d, hs, -, hb, hp, hd, -⟩ := parseJwtExp_ok_iff.mp hr
      exact absurd hd <| h payload b claims d hs (spells_of_atob hb) hp

section Instances

-- The claims `exp` of twelve seconds.
def twelve : String :=
  "\x7b\"exp\":12\x7d"

def parseTwelve (text : String) : Option JsValue :=
  if text = twelve then some (.object [("exp", .number 12)]) else none

theorem twelve_decodes :
    parseJwtExp parseTwelve ("h" ++ "." ++ "eyJleHAiOjEyfQ" ++ "." ++ "s") = .ok (JsNumber.mul 12 1000) ∧
    ∃ message, parseJwtExp parseTwelve "garbage" = .error message := by
  have hp : parseTwelve "" = none := by decide
  have ha : twelve.toList.all fun x => decide (x.toNat < 128) := by decide
  have hd := parseJwtExp_decodes hp
  refine ⟨hd.returns "h" "s" twelve "eyJleHAiOjEyfQ" [("exp", .number 12)] (.ofInt 12) (by decide) (by decide) ?_ rfl rfl
    ⟨"eyJleHAiOjEyfQ".toList, 0, by decide, by decide, by decide⟩, hd.throws "garbage" fun _ _ _ _ hs => ?_⟩
  · exact fun x hx => of_decide_eq_true <| List.all_eq_true.mp ha x hx
  · have hn : (JsString.split "garbage" '.')[1]? = none := by decide
    rw [hn] at hs
    cases hs

def toUrl (x : Char) : Char :=
  if x = '+' then '-' else if x = '/' then '_' else x

-- Base64 of one alphabet, filled up or not.
def EncodesPlainly (p : List Char) (b : List UInt8) : Prop :=
  ∃ k, (k = 0 ∨ k = padding (codes b).length) ∧
    (p = codes b ++ .replicate k '=' ∨ p = (codes b).map toUrl ++ .replicate k '=')

theorem equals_not_mem_toUrl : '=' ∉ (codes b).map toUrl := by
  intro h
  obtain ⟨x, hx, he⟩ := List.mem_map.mp h
  rw [toUrl] at he
  split at he
  case isTrue  => exact absurd he <| by decide
  case isFalse =>
    split at he
    case isTrue  => exact absurd he <| by decide
    case isFalse => exact equals_not_mem_codes <| he ▸ hx

theorem encodesPlainly_length (h : EncodesPlainly p b) (he : '=' ∈ p) : p.length % 4 = 0 := by
  obtain ⟨k, hk, hp⟩ := h
  have hl : p.length = (codes b).length + k := by
    obtain rfl | rfl := hp <;> simp
  obtain rfl | rfl := hk
  case inl =>
    rw [List.replicate_zero, List.append_nil, List.append_nil] at hp
    obtain rfl | rfl := hp
    · exact absurd he equals_not_mem_codes
    · exact absurd he equals_not_mem_toUrl
  case inr =>
    rw [hl, padding]
    omega

-- A token with one of the two characters that fill it up is taken.
theorem not_parseJwtExp_decodes :
    ¬∀ parse, parse "" = none → ExpDecoded EncodesPlainly EncodesPlainly parse := by
  intro h
  have hs : (JsString.split "h.eyJleHAiOjEyfQ=.s" '.')[1]? = some "eyJleHAiOjEyfQ=" := by decide
  have hb : Base64.atob (normalized "eyJleHAiOjEyfQ=") = some (asciiBytes twelve) := by decide
  have hp : parseTwelve (binaryString <| asciiBytes twelve) = some (.object [("exp", .number 12)]) := rfl
  have hn : parseTwelve "" = none := by decide
  obtain ⟨message, hm⟩ := (h parseTwelve hn).throws "h.eyJleHAiOjEyfQ=.s" fun payload b _ _ hq he _ _ => by
    obtain rfl := Option.some.inj <| hs.symm.trans hq
    exact absurd (encodesPlainly_length he <| by decide) <| by decide
  have hr := parseJwtExp_ok_iff.mpr ⟨_, _, _, _, hs, by decide, hb, hp, rfl, rfl⟩
  rw [hm] at hr
  cases hr

end Instances

end Session
