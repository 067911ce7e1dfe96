import Mathlib.Computability.Language

-- Regular expressions over classes of characters, with bounded repetition: the texts that one matches as
-- a whole, and a matcher that tries every way to match.

inductive Regex
  | one (p : Char → Bool)
  | seq (r s : Regex)
  | alt (r s : Regex)
  -- `r{lo,lo+more}`
  | rep (lo more : Nat) (r : Regex)
  -- `r*`
  | many (r : Regex)

namespace Regex

open Computability

variable {r s : Regex} {l t u v : List Char} {p : Char → Bool} {c : Char} {n m : Nat}

-- Up to `n` words of a language.
def powUpTo (L : Language Char) (n : Nat) : Language Char :=
  {u | ∃ k ≤ n, u ∈ L ^ k}

def lang : Regex → Language Char
  | one p         => {u | ∃ c, p c = true ∧ u = [c]}
  | seq r s       => r.lang * s.lang
  | alt r s       => r.lang + s.lang
  | rep lo more r => r.lang ^ lo * powUpTo r.lang more
  | many r        => r.lang∗

def opt (r : Regex) : Regex :=
  rep 0 1 r

-- `r+`
def plus (r : Regex) : Regex :=
  seq r <| many r

def char (c : Char) : Regex :=
  one (· = c)

def range (a b : Char) : Regex :=
  one fun c => a ≤ c && c ≤ b

def eps : Regex :=
  rep 0 0 <| one fun _ => false

-- A text as it stands.
def text (s : String) : Regex :=
  s.toList.foldr (fun c r => seq (char c) r) eps

-- One of several.
def anyOf (rs : List Regex) : Regex :=
  rs.foldr alt <| one fun _ => false

section Match

-- What may be left of a text behind `n` matches, or up to `n`, of what `f` takes off.
def times (f : List Char → List (List Char)) : Nat → List Char → List (List Char)
  | 0,     l => [l]
  | n + 1, l => (f l).flatMap <| times f n

def upTo (f : List Char → List (List Char)) : Nat → List Char → List (List Char)
  | 0,     l => [l]
  | n + 1, l => l :: (f l).flatMap (upTo f n)

def rest : Regex → List Char → List (List Char)
  | one p,         l => match l with
    | []     => []
    | c :: t => if p c then [t] else []
  | seq r s,       l => (r.rest l).flatMap s.rest
  | alt r s,       l => r.rest l ++ s.rest l
  | rep lo more r, l => (times r.rest lo l).flatMap <| upTo r.rest more
  | many r,        l => upTo r.rest l.length l

-- `/^r$/.test(s)`
def test (r : Regex) (s : List Char) : Bool :=
  [] ∈ r.rest s

-- What is taken off is in a language.
def Takes (f : List Char → List (List Char)) (L : Language Char) : Prop :=
  ∀ l t, t ∈ f l ↔ ∃ u ∈ L, l = u ++ t

variable {f g : List Char → List (List Char)} {L M : Language Char}

theorem Takes.mul (hf : Takes f L) (hg : Takes g M) : Takes (fun l => (f l).flatMap g) (L * M) := by
  intro l t
  simp only [List.mem_flatMap, hf l, hg _ t, Language.mem_mul]
  constructor
  case mp =>
    rintro ⟨_, ⟨u, hu, rfl⟩, v, hv, rfl⟩
    exact ⟨u ++ v, ⟨u, hu, v, hv, rfl⟩, (List.append_assoc u v t).symm⟩
  case mpr =>
    rintro ⟨_, ⟨u, hu, v, hv, rfl⟩, rfl⟩
    exact ⟨v ++ t, ⟨u, hu, List.append_assoc u v t⟩, v, hv, rfl⟩

theorem takes_nil : Takes (fun l => [l]) 1 := by
  intro l t
  simp [Language.mem_one, eq_comm]

theorem Takes.times (hf : Takes f L) (n : Nat) : Takes (times f n) (L ^ n) := by
  induction n
  case zero => exact takes_nil
  case succ n hi =>
    rw [pow_succ']
    exact hf.mul hi

theorem mem_powUpTo : u ∈ powUpTo L n ↔ ∃ k ≤ n, u ∈ L ^ k :=
  .rfl

theorem mem_one : u ∈ (one p).lang ↔ ∃ c, p c = true ∧ u = [c] :=
  .rfl

theorem mem_powUpTo_succ : u ∈ powUpTo L (n + 1) ↔ u = [] ∨ u ∈ L * powUpTo L n := by
  constructor
  case mp =>
    rintro ⟨k, hk, hu⟩
    cases k
    case zero => exact .inl <| by simpa using hu
    case succ k =>
      rw [pow_succ'] at hu
      obtain ⟨v, hv, w, hw, rfl⟩ := Language.mem_mul.mp hu
      exact .inr <| Language.append_mem_mul hv ⟨k, by omega, hw⟩
  case mpr =>
    rintro (rfl | hu)
    · exact ⟨0, by omega, by simp⟩
    · obtain ⟨v, hv, w, ⟨k, hk, hw⟩, rfl⟩ := Language.mem_mul.mp hu
      exact ⟨k + 1, by omega, pow_succ' L k ▸ Language.append_mem_mul hv hw⟩

theorem Takes.upTo (hf : Takes f L) (n : Nat) : Takes (upTo f n) (powUpTo L n) := by
  induction n
  case zero =>
    have h : powUpTo L 0 = 1 := by
      ext u
      simp [mem_powUpTo]
    exact h ▸ takes_nil
  case succ n hi =>
    intro l t
    rw [Regex.upTo, List.mem_cons, hf.mul hi l t]
    simp only [mem_powUpTo_succ, or_and_right, exists_or, exists_eq_left, List.nil_append, eq_comm]

theorem mem_kstar_of_pow (h : u ∈ L ^ n) : u ∈ L∗ := by
  obtain ⟨S, rfl, -, hS⟩ := Language.mem_pow.mp h
  exact Language.mem_kstar.mpr ⟨S, rfl, hS⟩

-- No more words than characters are needed.
theorem mem_kstar_iff : u ∈ L∗ ↔ u ∈ powUpTo L u.length := by
  constructor
  case mp =>
    intro h
    obtain ⟨S, rfl, hS⟩ := Language.mem_kstar_iff_exists_nonempty.mp h
    refine ⟨S.length, ?_, Language.mem_pow.mpr ⟨S, rfl, rfl, fun y hy => (hS y hy).1⟩⟩
    clear h
    induction S
    case nil => simp
    case cons w S hi =>
      have hw := List.length_pos_iff.mpr (hS w <| .head _).2
      have hi := hi fun y hy => hS y <| .tail _ hy
      rw [List.flatten_cons, List.length_append, List.length_cons]
      omega
  case mpr =>
    rintro ⟨k, -, hk⟩
    exact mem_kstar_of_pow hk

theorem takes_rest (r : Regex) : Takes r.rest r.lang := by
  induction r
  case one p =>
    intro l t
    cases l
    case nil => simp [rest, mem_one]
    case cons c l =>
      have hc : (∃ u ∈ (one p).lang, c :: l = u ++ t) ↔ p c = true ∧ t = l := by
        constructor
        case mp =>
          rintro ⟨_, ⟨d, hd, rfl⟩, h⟩
          obtain ⟨rfl, rfl⟩ := List.cons.inj h
          exact ⟨hd, rfl⟩
        case mpr =>
          rintro ⟨hc, rfl⟩
          exact ⟨[c], ⟨c, hc, rfl⟩, rfl⟩
      rw [hc, rest]
      split <;> simp_all
  case seq hr hs => exact hr.mul hs
  case alt hr hs =>
    intro l t
    rw [rest, List.mem_append, hr l t, hs l t]
    simp only [lang, Language.mem_add, or_and_right, exists_or]
  case rep hr => exact (hr.times _).mul (hr.upTo _)
  case many hr =>
    intro l t
    rw [rest, hr.upTo l.length l t, lang]
    constructor
    case mp =>
      rintro ⟨u, ⟨k, -, hk⟩, rfl⟩
      exact ⟨u, mem_kstar_of_pow hk, rfl⟩
    case mpr =>
      rintro ⟨u, hu, rfl⟩
      obtain ⟨k, hk, hu⟩ := mem_kstar_iff.mp hu
      exact ⟨u, ⟨k, by rw [List.length_append]; omega, hu⟩, rfl⟩

theorem test_iff : r.test u = true ↔ u ∈ r.lang := by
  simp [test, takes_rest r u []]

end Match

section Words

theorem mem_seq : u ∈ (seq r s).lang ↔ ∃ v ∈ r.lang, ∃ w ∈ s.lang, v ++ w = u :=
  Language.mem_mul

theorem mem_alt : u ∈ (alt r s).lang ↔ u ∈ r.lang ∨ u ∈ s.lang :=
  Language.mem_add ..

-- Repetition, word by word.
theorem mem_rep : u ∈ (rep n m r).lang ↔ ∃ ws : List (List Char),
    n ≤ ws.length ∧ ws.length ≤ n + m ∧ (∀ w ∈ ws, w ∈ r.lang) ∧ u = ws.flatten := by
  rw [lang, Language.mem_mul]
  constructor
  case mp =>
    rintro ⟨_, hv, _, ⟨k, hk, hw⟩, rfl⟩
    obtain ⟨vs, rfl, rfl, hvs⟩ := Language.mem_pow.mp hv
    obtain ⟨ws, rfl, rfl, hws⟩ := Language.mem_pow.mp hw
    refine ⟨vs ++ ws, by simp, by simpa using hk, ?_, by simp⟩
    exact fun w hw => (List.mem_append.mp hw).elim (hvs w) (hws w)
  case mpr =>
    rintro ⟨ws, hn, hm, hws, rfl⟩
    refine ⟨(ws.take n).flatten, ?_, (ws.drop n).flatten, ⟨ws.length - n, by omega, ?_⟩, ?_⟩
    · exact Language.mem_pow.mpr
        ⟨_, rfl, List.length_take_of_le hn, fun w hw => hws w <| List.mem_of_mem_take hw⟩
    · exact Language.mem_pow.mpr ⟨_, rfl, List.length_drop, fun w hw => hws w <| List.mem_of_mem_drop hw⟩
    · rw [← List.flatten_append, List.take_append_drop]

theorem mem_opt : u ∈ (opt r).lang ↔ u = [] ∨ u ∈ r.lang := by
  rw [opt, mem_rep]
  constructor
  case mp =>
    rintro ⟨ws, -, hl, hws, rfl⟩
    match ws, hl with
    | [],  _ => exact .inl rfl
    | [w], _ => exact .inr <| by simpa using hws
  case mpr =>
    rintro (rfl | hu)
    · exact ⟨[], by simp⟩
    · exact ⟨[u], by simpa using hu⟩

theorem mem_char : u ∈ (char c).lang ↔ u = [c] := by
  simp [char, mem_one]

theorem mem_eps : u ∈ eps.lang ↔ u = [] := by
  rw [eps, mem_rep]
  constructor
  case mp =>
    rintro ⟨ws, -, hl, -, rfl⟩
    rw [List.eq_nil_of_length_eq_zero (by omega : ws.length = 0), List.flatten_nil]
  case mpr =>
    rintro rfl
    exact ⟨[], by simp⟩

theorem mem_text {t : String} : u ∈ (text t).lang ↔ u = t.toList := by
  rw [text]
  generalize t.toList = l
  induction l generalizing u
  case nil => exact mem_eps
  case cons c l hi =>
    rw [List.foldr_cons, mem_seq]
    simp only [mem_char, hi]
    constructor
    case mp =>
      rintro ⟨_, rfl, _, rfl, rfl⟩
      rfl
    case mpr =>
      rintro rfl
      exact ⟨[c], rfl, l, rfl, rfl⟩

theorem mem_anyOf {rs : List Regex} : u ∈ (anyOf rs).lang ↔ ∃ s ∈ rs, u ∈ s.lang := by
  rw [anyOf]
  induction rs
  case nil          => simp [mem_one]
  case cons s rs hi => simp only [List.foldr_cons, mem_alt, hi, List.mem_cons, exists_eq_or_imp]

theorem mem_many : u ∈ (many r).lang ↔ ∃ ws : List (List Char), u = ws.flatten ∧ ∀ w ∈ ws, w ∈ r.lang :=
  Language.mem_kstar

-- Where the words are made of something else, so is their repetition.
theorem mem_rep_map {α : Type*} {p : α → Prop} {f : α → List Char}
    (h : ∀ w, w ∈ r.lang ↔ ∃ x, p x ∧ w = f x) : u ∈ (rep n m r).lang ↔
      ∃ xs : List α, n ≤ xs.length ∧ xs.length ≤ n + m ∧ (∀ x ∈ xs, p x) ∧ u = (xs.map f).flatten := by
  rw [mem_rep]
  constructor
  case mp =>
    rintro ⟨ws, hn, hm, hws, rfl⟩
    obtain ⟨xs, hxs, rfl⟩ : ∃ xs : List α, (∀ x ∈ xs, p x) ∧ ws = xs.map f := by
      clear hn hm
      induction ws
      case nil => exact ⟨[], by simp, rfl⟩
      case cons w ws hi =>
        obtain ⟨x, hx, rfl⟩ := (h w).mp <| hws w <| .head _
        obtain ⟨xs, hxs, rfl⟩ := hi fun w hw => hws w <| .tail _ hw
        exact ⟨x :: xs, List.forall_mem_cons.mpr ⟨hx, hxs⟩, rfl⟩
    rw [List.length_map] at hn hm
    exact ⟨xs, hn, hm, hxs, rfl⟩
  case mpr =>
    rintro ⟨xs, hn, hm, hxs, rfl⟩
    refine ⟨xs.map f, by simpa using hn, by simpa using hm, ?_, rfl⟩
    simp only [List.mem_map, forall_exists_index, and_imp, forall_apply_eq_imp_iff₂]
    exact fun x hx => (h _).mpr ⟨x, hxs x hx, rfl⟩

theorem flatten_singletons {cs : List Char} : (cs.map ([·])).flatten = cs := by
  induction cs <;> simp_all

-- Characters alone, repeated.
theorem mem_rep_one : u ∈ (rep n m <| one p).lang ↔
    n ≤ u.length ∧ u.length ≤ n + m ∧ ∀ c ∈ u, p c = true := by
  rw [mem_rep_map fun _ => mem_one]
  simp only [flatten_singletons]
  constructor
  case mp =>
    rintro ⟨cs, hn, hm, hcs, rfl⟩
    exact ⟨hn, hm, hcs⟩
  case mpr =>
    rintro ⟨hn, hm, hu⟩
    exact ⟨u, hn, hm, hu, rfl⟩

-- The characters that may occur in a match.
def chars : Regex → Char → Bool
  | one p,     c => p c
  | seq r s,   c => r.chars c || s.chars c
  | alt r s,   c => r.chars c || s.chars c
  | rep _ _ r, c => r.chars c
  | many r,    c => r.chars c

theorem chars_of_mem (h : u ∈ r.lang) (hc : c ∈ u) : r.chars c = true := by
  induction r generalizing u
  case one p =>
    obtain ⟨d, hd, rfl⟩ := h
    rwa [List.mem_singleton.mp hc]
  case seq hr hs =>
    obtain ⟨v, hv, w, hw, rfl⟩ := mem_seq.mp h
    rw [chars, Bool.or_eq_true]
    exact (List.mem_append.mp hc).imp (hr hv) (hs hw)
  case alt hr hs =>
    rw [chars, Bool.or_eq_true]
    exact (mem_alt.mp h).imp (hr · hc) (hs · hc)
  case rep hr =>
    obtain ⟨ws, -, -, hws, rfl⟩ := mem_rep.mp h
    obtain ⟨w, hw, hc⟩ := List.mem_flatten.mp hc
    exact hr (hws w hw) hc
  case many hr =>
    obtain ⟨ws, rfl, hws⟩ := mem_many.mp h
    obtain ⟨w, hw, hc⟩ := List.mem_flatten.mp hc
    exact hr (hws w hw) hc

end Words

end Regex
