import LoxilbUi.Library.JsJson

-- JSON documents, as a text of their own, and that the text tells them apart.

inductive Json
  | null
  | bool (b : Bool)
  | number (d : Decimal)
  | string (s : String)
  | array (items : List Json)
  | object (members : List (String × Json))

namespace Json

mutual

def text : Json → String
  | null      => "null"
  | bool b    => if b then "true" else "false"
  | number d  => d.text
  | string s  => JsValue.quote s
  | array js  => "[" ++ JsString.joinComma (itemTexts js) ++ "]"
  | object ms => "\x7b" ++ JsString.joinComma (memberTexts ms) ++ "\x7d"

def itemTexts : List Json → List String
  | []      => []
  | j :: js => j.text :: itemTexts js

def memberTexts : List (String × Json) → List String
  | []             => []
  | (key, j) :: ms => (JsValue.quote key ++ ":" ++ j.text) :: memberTexts ms

end

section Delimited

-- What stands behind a value inside a text.
def closers : List Char :=
  [',', ']', .ofNat 0x7D]

def Ends (r : List Char) : Prop :=
  ∀ c, r.head? = some c → c ∈ closers

-- Where the text of `a` ends can be seen from what comes behind it.
def Delimited {α : Type*} (f : α → List Char) (a : α) : Prop :=
  ∀ b r r', Ends r → Ends r' → f a ++ r = f b ++ r' → a = b ∧ r = r'

variable {α : Type*} {f : α → List Char} {l l' r r' : List Char} {c : Char}

theorem ends_nil : Ends [] := by
  simp [Ends]

theorem ends_cons (h : c ∈ closers) : Ends (c :: r) := by
  simpa [Ends] using h

theorem run_append_inj {P : Char → Prop} (hl : ∀ x ∈ l, P x) (hl' : ∀ x ∈ l', P x)
    (hr : ∀ x, r.head? = some x → ¬P x) (hr' : ∀ x, r'.head? = some x → ¬P x)
    (h : l ++ r = l' ++ r') : l = l' ∧ r = r' := by
  obtain ⟨m, hm, hs⟩ | ⟨m, hm, hs⟩ := List.append_eq_append_iff.mp h
  all_goals
    cases m
    case nil => simp_all
    case cons x m => simp_all

theorem intercalate_cons {x : List Char} {xs : List (List Char)} :
    [','].intercalate (x :: xs) = x ++ if xs = [] then [] else ',' :: [','].intercalate xs := by
  cases xs <;> simp [List.intercalate]

-- Texts with commas between them and a bracket behind them.
theorem intercalate_inj {close : Char} (hc : close ∈ closers) (hcomma : close ≠ ',')
    (hf : ∀ a, ∃ x xs, f a = x :: xs ∧ x ∉ closers) {as bs : List α}
    (ha : ∀ a ∈ as, Delimited f a)
    (h : [','].intercalate (as.map f) ++ close :: r = [','].intercalate (bs.map f) ++ close :: r') :
    as = bs ∧ r = r' := by
  induction as generalizing bs
  case nil =>
    cases bs
    case nil => simpa [List.intercalate] using h
    case cons b bs =>
      obtain ⟨x, xs, hx, hn⟩ := hf b
      simp only [List.map_nil, List.intercalate_nil, List.nil_append, List.map_cons,
        intercalate_cons, hx, List.cons_append, List.cons.injEq] at h
      exact absurd (h.1 ▸ hc) hn
  case cons a as hi =>
    cases bs
    case nil =>
      obtain ⟨x, xs, hx, hn⟩ := hf a
      simp only [List.map_nil, List.intercalate_nil, List.nil_append, List.map_cons,
        intercalate_cons, hx, List.cons_append, List.cons.injEq] at h
      exact absurd (h.1 ▸ hc) hn
    case cons b bs =>
      rw [List.map_cons, List.map_cons, intercalate_cons, intercalate_cons, List.append_assoc,
        List.append_assoc] at h
      have hends (cs : List α) (r : List Char) :
          Ends ((if cs.map f = [] then [] else ',' :: [','].intercalate (cs.map f)) ++ close :: r) := by
        split
        · exact ends_cons hc
        · exact ends_cons <| by decide
      obtain ⟨rfl, hr⟩ := ha a (by simp) b _ _ (hends _ _) (hends _ _) h
      cases as <;> cases bs
      case nil.nil => simpa using hr
      case nil.cons => exact absurd (List.cons.inj hr).1 hcomma
      case cons.nil => exact absurd (List.cons.inj hr).1.symm hcomma
      case cons.cons =>
        obtain ⟨hs, hr⟩ := hi (fun a ha' => ha a <| .tail _ ha') (List.cons.inj hr).2
        exact ⟨by rw [hs], hr⟩

end Delimited

section Quote

open JsValue

variable {c d : Char} {s t r r' : List Char}

-- A character that has no escape is itself, and neither the quotation mark nor the backslash.
theorem escape_cases (c : Char) :
    (∃ letter, escapes.lookup c.toNat = some letter ∧ escape c = [.ofNat 0x5C, letter]) ∨
    (c.toNat < 0x20 ∧ escape c =
      [.ofNat 0x5C, 'u', '0', '0', hexDigit (c.toNat / 16), hexDigit (c.toNat % 16)]) ∨
    (c ≠ .ofNat 0x5C ∧ c ≠ .ofNat 0x22 ∧ escape c = [c]) := by
  simp only [escape]
  cases h : escapes.lookup c.toNat
  case some letter => exact .inl ⟨letter, rfl, rfl⟩
  case none =>
    by_cases hc : c.toNat < 0x20
    · exact .inr <| .inl ⟨hc, if_pos hc⟩
    · refine .inr <| .inr ⟨?_, ?_, if_neg hc⟩ <;> rintro rfl <;> revert h <;> decide

theorem lookup_mem {n : Nat} {letter : Char} (h : escapes.lookup n = some letter) :
    (n, letter) ∈ escapes := by
  obtain ⟨l, l', hl, -⟩ := List.lookup_eq_some_iff.mp h
  simp [hl]

theorem letter_inj : ∀ p ∈ escapes, ∀ q ∈ escapes, p.2 = q.2 → p.1 = q.1 := by
  decide

theorem letter_ne_u : ∀ p ∈ escapes, p.2 ≠ 'u' := by
  decide

theorem hexDigit_inj : ∀ m < 16, ∀ n < 16, hexDigit m = hexDigit n → m = n := by
  decide

theorem escape_append_inj (h : escape c ++ r = escape d ++ r') : c = d ∧ r = r' := by
  obtain ⟨a, ha, hc⟩ | ⟨hm, hc⟩ | ⟨hb, hq, hc⟩ := escape_cases c
  case inl =>
    obtain ⟨b, hb, hd⟩ | ⟨hn, hd⟩ | ⟨hb, hq, hd⟩ := escape_cases d
    all_goals simp only [hc, hd, List.cons_append, List.nil_append, List.cons.injEq] at h
    case inl =>
      obtain ⟨-, rfl, hr⟩ := h
      exact ⟨Char.toNat_inj.mp <| letter_inj _ (lookup_mem ha) _ (lookup_mem hb) rfl, hr⟩
    case inr.inl => exact absurd h.2.1 <| letter_ne_u _ <| lookup_mem ha
    case inr.inr => exact absurd h.1.symm hb
  case inr.inl =>
    obtain ⟨b, hb, hd⟩ | ⟨hn, hd⟩ | ⟨hb, hq, hd⟩ := escape_cases d
    all_goals simp only [hc, hd, List.cons_append, List.nil_append, List.cons.injEq] at h
    case inl => exact absurd h.2.1.symm <| letter_ne_u _ <| lookup_mem hb
    case inr.inl =>
      obtain ⟨-, -, -, -, hhi, hlo, hr⟩ := h
      have hhi := hexDigit_inj _ (by omega) _ (by omega) hhi
      have hlo := hexDigit_inj _ (by omega) _ (by omega) hlo
      exact ⟨Char.toNat_inj.mp <| by omega, hr⟩
    case inr.inr => exact absurd h.1.symm hb
  case inr.inr =>
    obtain ⟨b, hb', hd⟩ | ⟨hn, hd⟩ | ⟨hb', hq', hd⟩ := escape_cases d
    all_goals simp only [hc, hd, List.cons_append, List.nil_append, List.cons.injEq] at h
    case inl => exact absurd h.1 hb
    case inr.inl => exact absurd h.1 hb
    case inr.inr => exact h

theorem escape_ne_quote {l : List Char} : escape c ++ l ≠ .ofNat 0x22 :: r := by
  intro h
  obtain ⟨a, ha, hc⟩ | ⟨hm, hc⟩ | ⟨hb, hq, hc⟩ := escape_cases c
  all_goals
    simp only [hc, List.cons_append, List.nil_append, List.cons.injEq] at h
  · exact absurd h.1 <| by decide
  · exact absurd h.1 <| by decide
  · exact hq h.1

-- The first quotation mark that is not part of an escape ends the text.
theorem flatMap_escape_inj
    (h : s.flatMap escape ++ .ofNat 0x22 :: r = t.flatMap escape ++ .ofNat 0x22 :: r') :
    s = t ∧ r = r' := by
  induction s generalizing t
  case nil =>
    cases t
    case nil      => simpa using h
    case cons d t =>
      rw [List.flatMap_cons, List.append_assoc] at h
      exact absurd h.symm escape_ne_quote
  case cons c s hi =>
    cases t
    case nil      =>
      rw [List.flatMap_cons, List.append_assoc] at h
      exact absurd h escape_ne_quote
    case cons d t =>
      rw [List.flatMap_cons, List.flatMap_cons, List.append_assoc, List.append_assoc] at h
      obtain ⟨rfl, ht⟩ := escape_append_inj h
      obtain ⟨rfl, hr⟩ := hi ht
      exact ⟨rfl, hr⟩

theorem quote_append_inj {s t : String} (h : (quote s).toList ++ r = (quote t).toList ++ r') :
    s = t ∧ r = r' := by
  simp only [quote, String.toList_ofList, List.cons_append, List.append_assoc, List.cons.injEq,
    List.nil_append, true_and] at h
  obtain ⟨hs, hr⟩ := flatMap_escape_inj h
  exact ⟨String.toList_inj.mp hs, hr⟩

end Quote

section Text

variable {j k : Json} {r r' : List Char}

def chars (j : Json) : List Char :=
  j.text.toList

def memberChars (m : String × Json) : List Char :=
  (JsValue.quote m.1).toList ++ ':' :: m.2.chars

theorem itemTexts_eq {js : List Json} : itemTexts js = js.map text := by
  induction js
  case nil          => rfl
  case cons j js hi => rw [itemTexts, hi, List.map_cons]

theorem memberTexts_eq {ms : List (String × Json)} :
    (memberTexts ms).map String.toList = ms.map memberChars := by
  induction ms
  case nil          => rfl
  case cons m ms hi => simp [memberTexts, hi, memberChars, chars]

theorem chars_array {js : List Json} :
    (array js).chars = '[' :: ([','].intercalate (js.map chars) ++ [']']) := by
  have hc : String.toList ∘ text = chars := rfl
  simp [chars, text, JsString.joinComma, String.toList_intercalate, itemTexts_eq, hc]

theorem chars_object {ms : List (String × Json)} : (object ms).chars =
    .ofNat 0x7B :: ([','].intercalate (ms.map memberChars) ++ [.ofNat 0x7D]) := by
  simp [chars, text, JsString.joinComma, String.toList_intercalate, memberTexts_eq]

-- The kind of a value, and what its text begins with.
def kind : Json → Nat
  | null     => 0
  | bool _   => 1
  | number _ => 2
  | string _ => 3
  | array _  => 4
  | object _ => 5

def kindOf (c : Char) : Nat :=
  if c = 'n' then 0
  else if c = 't' || c = 'f' then 1
  else if c = .ofNat 0x22 then 3
  else if c = '[' then 4
  else if c = .ofNat 0x7B then 5
  else 2

theorem kindOf_numeral {c : Char} (h : Decimal.IsNumeralChar c) : kindOf c = 2 ∧ c ∉ closers := by
  have hn : (['n', 't', 'f', .ofNat 0x22, '[', .ofNat 0x7B] ++ closers).all
      (fun x => !x.isDigit && ['.', 'e', '+', '-'].all (x ≠ ·)) = true := by decide
  have hne : ∀ x ∈ ['n', 't', 'f', .ofNat 0x22, '[', .ofNat 0x7B] ++ closers, c ≠ x := by
    rintro x hx rfl
    obtain ⟨hd, hs⟩ := Bool.and_eq_true_iff.mp <| List.all_eq_true.mp hn c hx
    obtain h | h := h
    · simp [h] at hd
    · simpa using List.all_eq_true.mp hs c h
  refine ⟨?_, fun hc => hne c (List.mem_append_right _ hc) rfl⟩
  simp only [List.forall_mem_append, List.forall_mem_cons] at hne
  simp [kindOf, hne]

theorem decimal_head (d : Decimal) : ∃ c cs, d.text.toList = c :: cs := by
  obtain ⟨c, t, ht, -⟩ := Decimal.digitsText_head d.mantissa.natAbs d.exponent
  simp only [Decimal.text, String.toList_ofList, ht]
  split
  case isTrue  => exact ⟨_, _, rfl⟩
  case isFalse => exact ⟨_, _, rfl⟩

theorem chars_head (j : Json) : ∃ c cs, j.chars = c :: cs ∧ kindOf c = j.kind ∧ c ∉ closers := by
  cases j
  case null      => exact ⟨'n', "ull".toList, rfl, rfl, by decide⟩
  case bool b    =>
    cases b
    · exact ⟨'f', "alse".toList, rfl, rfl, by decide⟩
    · exact ⟨'t', "rue".toList, rfl, rfl, by decide⟩
  case number d  =>
    obtain ⟨c, cs, hd⟩ := decimal_head d
    exact ⟨c, cs, hd, kindOf_numeral <| Decimal.text_chars <| hd ▸ List.mem_cons_self⟩
  case string s  => exact ⟨_, _, String.toList_ofList, rfl, by decide⟩
  case array js  => exact ⟨_, _, chars_array, rfl, by decide⟩
  case object ms => exact ⟨_, _, chars_object, rfl, by decide⟩

theorem kind_eq (h : j.chars ++ r = k.chars ++ r') : j.kind = k.kind := by
  obtain ⟨c, cs, hc, hj, -⟩ := chars_head j
  obtain ⟨d, ds, hd, hk, -⟩ := chars_head k
  rw [hc, hd, List.cons_append, List.cons_append] at h
  rw [← hj, ← hk, (List.cons.inj h).1]

theorem number_delimited {d e : Decimal} (hr : Ends r) (hr' : Ends r')
    (h : d.text.toList ++ r = e.text.toList ++ r') : d = e ∧ r = r' := by
  have hends {r : List Char} (hr : Ends r) (x : Char) (hx : r.head? = some x) :
      ¬Decimal.IsNumeralChar x :=
    fun hc => (kindOf_numeral hc).2 <| hr x hx
  obtain ⟨ht, hr⟩ := run_append_inj (P := Decimal.IsNumeralChar) (fun x => Decimal.text_chars)
    (fun x => Decimal.text_chars) (hends hr) (hends hr') h
  exact ⟨Decimal.text_injective <| String.toList_inj.mp ht, hr⟩

theorem memberChars_delimited {m : String × Json} (h : Delimited chars m.2) :
    Delimited memberChars m := by
  intro n r r' hr hr' he
  simp only [memberChars, List.append_assoc] at he
  obtain ⟨hk, he⟩ := quote_append_inj he
  obtain ⟨hv, hr⟩ := h n.2 r r' hr hr' (List.cons.inj he).2
  exact ⟨Prod.ext hk hv, hr⟩

theorem memberChars_head (m : String × Json) : ∃ c cs, memberChars m = c :: cs ∧ c ∉ closers :=
  ⟨.ofNat 0x22, _, by rw [memberChars, JsValue.quote, String.toList_ofList, List.cons_append],
    by decide⟩

theorem array_delimited {js : List Json} (hj : ∀ j ∈ js, Delimited chars j) :
    Delimited chars (array js) := by
  intro k r r' hr hr' h
  have hk := kind_eq h
  cases k <;> cases hk
  case array.refl ks =>
    simp only [chars_array, List.cons_append, List.append_assoc, List.cons.injEq, true_and,
      List.nil_append] at h
    obtain ⟨rfl, hr⟩ := intercalate_inj (by decide) (by decide)
      (fun j => (chars_head j).imp fun _ => Exists.imp fun _ h => ⟨h.1, h.2.2⟩) hj h
    exact ⟨rfl, hr⟩

theorem object_delimited {ms : List (String × Json)} (hm : ∀ m ∈ ms, Delimited chars m.2) :
    Delimited chars (object ms) := by
  intro k r r' hr hr' h
  have hk := kind_eq h
  cases k <;> cases hk
  case object.refl ns =>
    simp only [chars_object, List.cons_append, List.append_assoc, List.cons.injEq, true_and,
      List.nil_append] at h
    obtain ⟨rfl, hr⟩ := intercalate_inj (by decide) (by decide) memberChars_head
      (fun m h => memberChars_delimited <| hm m h) h
    exact ⟨rfl, hr⟩

mutual

theorem chars_delimited : ∀ j, Delimited chars j
  | null      => fun k r r' hr hr' h => by
    have hk := kind_eq h
    cases k <;> cases hk
    case null.refl => exact ⟨rfl, List.append_cancel_left h⟩
  | bool b    => fun k r r' hr hr' h => by
    have hk := kind_eq h
    cases k <;> cases hk
    case bool.refl c => cases b <;> cases c <;> simp_all [chars, text]
  | number d  => fun k r r' hr hr' h => by
    have hk := kind_eq h
    cases k <;> cases hk
    case number.refl e =>
      obtain ⟨rfl, hr⟩ := number_delimited hr hr' h
      exact ⟨rfl, hr⟩
  | string s  => fun k r r' hr hr' h => by
    have hk := kind_eq h
    cases k <;> cases hk
    case string.refl t =>
      obtain ⟨rfl, hr⟩ := quote_append_inj h
      exact ⟨rfl, hr⟩
  | array js  => array_delimited <| items_delimited js
  | object ms => object_delimited <| members_delimited ms

theorem items_delimited : ∀ js : List Json, ∀ j ∈ js, Delimited chars j
  | []      => by simp
  | j :: js => List.forall_mem_cons.mpr ⟨chars_delimited j, items_delimited js⟩

theorem members_delimited : ∀ ms : List (String × Json), ∀ m ∈ ms, Delimited chars m.2
  | []             => by simp
  | (key, j) :: ms => List.forall_mem_cons.mpr ⟨chars_delimited j, members_delimited ms⟩

end

theorem text_injective : Function.Injective text := by
  intro j k h
  have h := congrArg String.toList h
  exact (chars_delimited j k [] [] ends_nil ends_nil <| by simpa [chars] using h).1

end Text

end Json

namespace JsValue

mutual

-- What a value is in a JSON text, where it is anything.
def json : JsValue → Option Json
  | undefined          => none
  | null               => some .null
  | bool b             => some <| .bool b
  | number (.finite d) => some <| .number d
  | number _           => some .null
  | string s           => some <| .string s
  | array vs           => some <| .array <| jsonItems vs
  | object ms          => some <| .object <| jsonMembers ms

def jsonItems : List JsValue → List Json
  | []      => []
  | v :: vs => v.json.getD .null :: jsonItems vs

def jsonMembers : List (String × JsValue) → List (String × Json)
  | []             => []
  | (key, v) :: ms =>
    match v.json with
    | some j => (key, j) :: jsonMembers ms
    | none   => jsonMembers ms

end

mutual

theorem stringify_eq : ∀ v : JsValue, v.stringify = v.json.map Json.text
  | undefined | null | bool _ | string _ => rfl
  | number n  => by cases n <;> rfl
  | array vs  => by simp [stringify, json, Json.text, stringifyItems_eq vs]
  | object ms => by simp [stringify, json, Json.text, stringifyMembers_eq ms]

theorem stringifyItems_eq : ∀ vs, stringifyItems vs = Json.itemTexts (jsonItems vs)
  | []      => rfl
  | v :: vs => by
    rw [stringifyItems, jsonItems, Json.itemTexts, stringify_eq v, stringifyItems_eq vs]
    cases v.json <;> rfl

theorem stringifyMembers_eq : ∀ ms, stringifyMembers ms = Json.memberTexts (jsonMembers ms)
  | []             => rfl
  | (key, v) :: ms => by
    rw [stringifyMembers, jsonMembers, stringify_eq v, stringifyMembers_eq ms]
    cases v.json <;> rfl

end

-- Two values with one text are one in JSON.
theorem stringify_eq_iff {v w : JsValue} : v.stringify = w.stringify ↔ v.json = w.json := by
  rw [stringify_eq, stringify_eq]
  exact (Option.map_injective Json.text_injective).eq_iff

section OfJson

mutual

-- `JSON.parse`, of a document that is read already.
def ofJson : Json → JsValue
  | .null      => null
  | .bool b    => bool b
  | .number d  => number <| .finite d
  | .string s  => string s
  | .array js  => array <| ofJsonItems js
  | .object ms => object <| ofJsonMembers ms

def ofJsonItems : List Json → List JsValue
  | []      => []
  | j :: js => ofJson j :: ofJsonItems js

def ofJsonMembers : List (String × Json) → List (String × JsValue)
  | []             => []
  | (key, j) :: ms => (key, ofJson j) :: ofJsonMembers ms

end

variable {ms : List (String × JsValue)} {js : List (String × Json)} {key : String} {v : JsValue}

mutual

theorem json_ofJson : ∀ j, (ofJson j).json = some j
  | .null | .bool _ | .number _ | .string _ => rfl
  | .array js  => by rw [ofJson, json, jsonItems_ofJsonItems js]
  | .object ms => by rw [ofJson, json, jsonMembers_ofJsonMembers ms]

theorem jsonItems_ofJsonItems : ∀ js, jsonItems (ofJsonItems js) = js
  | []      => rfl
  | j :: js => by rw [ofJsonItems, jsonItems, json_ofJson j, jsonItems_ofJsonItems js, Option.getD_some]

theorem jsonMembers_ofJsonMembers : ∀ ms, jsonMembers (ofJsonMembers ms) = ms
  | []             => rfl
  | (key, j) :: ms => by rw [ofJsonMembers, jsonMembers, json_ofJson j, jsonMembers_ofJsonMembers ms]

end

theorem lookup_ofJsonMembers : (ofJsonMembers js).lookup key = (js.lookup key).map ofJson := by
  induction js
  case nil => rfl
  case cons m js hi =>
    obtain ⟨k, j⟩ := m
    rw [ofJsonMembers, Dict.lookup_cons, Dict.lookup_cons, hi]
    split <;> rfl

theorem ofJsonMembers_keys : (ofJsonMembers js).map Prod.fst = js.map Prod.fst := by
  induction js
  case nil          => rfl
  case cons m js hi => rw [ofJsonMembers, List.map_cons, List.map_cons, hi]

theorem jsonMembers_keys : ((jsonMembers ms).map Prod.fst).Sublist (ms.map Prod.fst) := by
  induction ms
  case nil => exact .slnil
  case cons m ms hi =>
    obtain ⟨k, v⟩ := m
    rw [jsonMembers]
    split
    case h_1 => exact hi.cons_cons _
    case h_2 => exact hi.cons _

theorem lookup_jsonMembers (hn : (ms.map Prod.fst).Nodup) :
    (jsonMembers ms).lookup key = (ms.lookup key).bind json := by
  induction ms
  case nil => rfl
  case cons m ms hi =>
    obtain ⟨k, v⟩ := m
    obtain ⟨hk, hms⟩ := List.nodup_cons.mp hn
    have hm : (jsonMembers ms).lookup k = none :=
      Dict.lookup_eq_none fun h => hk <| jsonMembers_keys.subset h
    rw [jsonMembers, Dict.lookup_cons]
    split
    case h_1 j hj =>
      rw [Dict.lookup_cons, hi hms]
      split
      · exact hj.symm
      · rfl
    case h_2 hj =>
      split
      case isTrue h  => rw [h, hm, Option.bind_some, hj]
      case isFalse h => exact hi hms

-- What a JSON text carries whole: numbers are finite, and no name stands in an object twice.
inductive Carried : JsValue → Prop
  | undefined : Carried .undefined
  | null : Carried .null
  | bool (b : Bool) : Carried (.bool b)
  | number (d : Decimal) : Carried (.number <| .finite d)
  | string (s : String) : Carried (.string s)
  | array {vs : List JsValue} (h : ∀ v ∈ vs, Carried v) : Carried (.array vs)
  | object {ms : List (String × JsValue)} (hn : (ms.map Prod.fst).Nodup)
    (h : ∀ m ∈ ms, Carried m.2) : Carried (.object ms)

theorem Carried.json_eq_none_iff (h : v.Carried) : v.json = none ↔ v = .undefined := by
  cases h <;> simp [json]

theorem Carried.json_eq_null_iff (h : v.Carried) : v.json = some .null ↔ v = .null := by
  cases h <;> simp [json]

end OfJson

end JsValue
