import LoxilbUi.Library.Regex

-- Regular expressions with numbered groups, and the order in which the language tries the ways to match
-- one: the left alternative first, and as many characters as there are before fewer. The first way counts.

inductive Pattern
  | one (p : Char → Bool)
  | seq (r s : Pattern)
  | alt (r s : Pattern)
  -- `(?:r)?`, of an expression that matches no empty text
  | opt (r : Pattern)
  -- `[p]*`
  | many (p : Char → Bool)
  | group (n : Nat) (r : Pattern)

namespace Pattern

-- A way to match: the groups, what is taken off a text, and what is left of it.
@[ext]
structure Found where
  groups : List (Nat × List Char)
  taken  : List Char
  rest   : List Char

namespace Found

def zero (l : List Char) : Found :=
  ⟨[], [], l⟩

def push (c : Char) (f : Found) : Found :=
  { f with taken := c :: f.taken }

-- The second one goes on where the first one stops.
def andThen (f g : Found) : Found :=
  ⟨f.groups ++ g.groups, f.taken ++ g.taken, g.rest⟩

def close (n : Nat) (f : Found) : Found :=
  { f with groups := (n, f.taken) :: f.groups }

def get? (f : Found) (n : Nat) : Option (List Char) :=
  f.groups.lookup n

end Found

def runMany (p : Char → Bool) : List Char → List Found
  | []     => [.zero []]
  | c :: l => if p c then (runMany p l).map (.push c) ++ [.zero (c :: l)] else [.zero (c :: l)]

def run : Pattern → List Char → List Found
  | one p,     l => match l with
    | []     => []
    | c :: t => if p c then [⟨[], [c], t⟩] else []
  | seq r s,   l => (r.run l).flatMap fun f => (s.run f.rest).map f.andThen
  | alt r s,   l => r.run l ++ s.run l
  | opt r,     l => r.run l ++ [.zero l]
  | many p,    l => runMany p l
  | group n r, l => (r.run l).map (.close n)

-- `s.match(/^r/)`
def matchStart (r : Pattern) (l : List Char) : Option Found :=
  (r.run l).head?

def whole (r : Pattern) (l : List Char) : List Found :=
  (r.run l).filter (·.rest = [])

-- `s.match(/^r$/)`
def matchWhole (r : Pattern) (l : List Char) : Option Found :=
  (r.whole l).head?

-- `/r/.test(s)`
def search (r : Pattern) (l : List Char) : Bool :=
  l.tails.any fun t => (matchStart r t).isSome

def toRegex : Pattern → Regex
  | one p     => .one p
  | seq r s   => .seq r.toRegex s.toRegex
  | alt r s   => .alt r.toRegex s.toRegex
  | opt r     => .opt r.toRegex
  | many p    => .many (.one p)
  | group _ r => r.toRegex

abbrev lang (r : Pattern) : Language Char :=
  r.toRegex.lang

-- `[p]+`
def plus (p : Char → Bool) : Pattern :=
  seq (one p) (many p)

def char (c : Char) : Pattern :=
  one (· = c)

-- `[p]{n + 1}`
def times (p : Char → Bool) : Nat → Pattern
  | 0     => one p
  | n + 1 => seq (one p) (times p n)

-- A text as it stands, of which there is a first character.
def text : Char → List Char → Pattern
  | c, []     => char c
  | c, d :: l => seq (char c) (text d l)

-- A text that is not empty, as it stands.
def literal (w : String) : Pattern :=
  text (w.toList.headD ' ') w.toList.tail

-- `w|v|…`
def oneOf : String → List String → Pattern
  | w, []      => literal w
  | w, v :: ws => alt (literal w) (oneOf v ws)

variable {r s : Pattern} {l u t v : List Char} {p : Char → Bool} {c : Char} {f g : Found} {n : Nat}

section Words

theorem mem_one : u ∈ (one p).lang ↔ ∃ c, p c = true ∧ u = [c] :=
  .rfl

theorem mem_seq : u ∈ (seq r s).lang ↔ ∃ v ∈ r.lang, ∃ w ∈ s.lang, v ++ w = u :=
  Regex.mem_seq

theorem mem_alt : u ∈ (alt r s).lang ↔ u ∈ r.lang ∨ u ∈ s.lang :=
  Regex.mem_alt

theorem mem_opt : u ∈ (opt r).lang ↔ u = [] ∨ u ∈ r.lang :=
  Regex.mem_opt

theorem mem_group : u ∈ (group n r).lang ↔ u ∈ r.lang :=
  .rfl

theorem mem_many : u ∈ (many p).lang ↔ ∀ c ∈ u, p c = true := by
  rw [lang, toRegex, Regex.mem_many]
  constructor
  case mp =>
    rintro ⟨ws, rfl, hws⟩ c hc
    obtain ⟨w, hw, hc⟩ := List.mem_flatten.mp hc
    obtain ⟨d, hd, rfl⟩ := hws w hw
    rwa [List.mem_singleton.mp hc]
  case mpr =>
    refine fun h => ⟨u.map ([·]), Regex.flatten_singletons.symm, fun w hw => ?_⟩
    obtain ⟨c, hc, rfl⟩ := List.mem_map.mp hw
    exact ⟨c, h c hc, rfl⟩

theorem mem_plus : u ∈ (plus p).lang ↔ u ≠ [] ∧ ∀ c ∈ u, p c = true := by
  rw [plus, mem_seq]
  constructor
  case mp =>
    rintro ⟨_, ⟨c, hc, rfl⟩, w, hw, rfl⟩
    exact ⟨by simp, List.forall_mem_cons.mpr ⟨hc, mem_many.mp hw⟩⟩
  case mpr =>
    rintro ⟨hn, h⟩
    obtain ⟨c, w, rfl⟩ := List.exists_cons_of_ne_nil hn
    obtain ⟨hc, hw⟩ := List.forall_mem_cons.mp h
    exact ⟨[c], ⟨c, hc, rfl⟩, w, mem_many.mpr hw, rfl⟩

theorem mem_char : u ∈ (char c).lang ↔ u = [c] :=
  Regex.mem_char

theorem mem_times : u ∈ (times p n).lang ↔ u.length = n + 1 ∧ ∀ c ∈ u, p c = true := by
  induction n generalizing u
  case zero =>
    rw [times, mem_one, Nat.zero_add, List.length_eq_one_iff]
    constructor
    case mp =>
      rintro ⟨c, hc, rfl⟩
      exact ⟨⟨c, rfl⟩, by simpa⟩
    case mpr =>
      rintro ⟨⟨c, rfl⟩, h⟩
      exact ⟨c, h c <| .head _, rfl⟩
  case succ n hi =>
    rw [times, mem_seq]
    constructor
    case mp =>
      rintro ⟨_, ⟨c, hc, rfl⟩, w, hw, rfl⟩
      obtain ⟨hl, hw⟩ := hi.mp hw
      exact ⟨by simp [hl], List.forall_mem_cons.mpr ⟨hc, hw⟩⟩
    case mpr =>
      rintro ⟨hl, h⟩
      obtain ⟨c, w, rfl⟩ := List.exists_cons_of_ne_nil <| List.ne_nil_of_length_eq_add_one hl
      obtain ⟨hc, hw⟩ := List.forall_mem_cons.mp h
      exact ⟨[c], ⟨c, hc, rfl⟩, w, hi.mpr ⟨by simpa using hl, hw⟩, rfl⟩

theorem mem_text : u ∈ (text c l).lang ↔ u = c :: l := by
  induction l generalizing c u
  case nil         => exact mem_char
  case cons d l hi =>
    rw [text, mem_seq]
    simp only [mem_char, hi]
    constructor
    case mp =>
      rintro ⟨_, rfl, _, rfl, rfl⟩
      rfl
    case mpr => exact fun h => ⟨[c], rfl, d :: l, rfl, h.symm⟩

end Words

section Found

theorem mem_runMany : (∃ gs, ⟨gs, u, t⟩ ∈ runMany p l) ↔ (∀ c ∈ u, p c = true) ∧ u ++ t = l := by
  induction l generalizing u
  case nil => simp +contextual [runMany, Found.zero]
  case cons c l hi =>
    rw [runMany]
    constructor
    case mp =>
      rintro ⟨gs, h⟩
      split at h
      case isFalse =>
        obtain ⟨rfl, rfl, rfl⟩ := Found.mk.inj <| List.mem_singleton.mp h
        exact ⟨nofun, rfl⟩
      case isTrue hc =>
        obtain h | h := List.mem_append.mp h
        · obtain ⟨f, hf, he⟩ := List.mem_map.mp h
          obtain ⟨rfl, rfl, rfl⟩ := Found.mk.inj he
          obtain ⟨hu, he⟩ := hi.mp ⟨_, hf⟩
          exact ⟨List.forall_mem_cons.mpr ⟨hc, hu⟩, by rw [List.cons_append, he]⟩
        · obtain ⟨rfl, rfl, rfl⟩ := Found.mk.inj <| List.mem_singleton.mp h
          exact ⟨nofun, rfl⟩
    case mpr =>
      rintro ⟨hu, he⟩
      cases u
      case nil =>
        obtain rfl : t = c :: l := he
        refine ⟨[], ?_⟩
        split <;> simp [Found.zero]
      case cons d u =>
        obtain ⟨rfl, hl⟩ := List.cons.inj he
        obtain ⟨hc, hu⟩ := List.forall_mem_cons.mp hu
        obtain ⟨gs, hf⟩ := hi.mpr ⟨hu, hl⟩
        rw [if_pos hc]
        exact ⟨gs, List.mem_append_left _ <| List.mem_map.mpr ⟨_, hf, rfl⟩⟩

-- The ways to match a beginning of a text are those of the expression without its groups.
theorem mem_run : (∃ gs, ⟨gs, u, t⟩ ∈ r.run l) ↔ u ∈ r.lang ∧ u ++ t = l := by
  induction r generalizing l u t
  case one p =>
    rw [mem_one]
    cases l
    case nil =>
      refine iff_of_false (by simp [run]) ?_
      rintro ⟨⟨c, -, rfl⟩, h⟩
      cases h
    case cons d l =>
      constructor
      case mp =>
        rintro ⟨gs, h⟩
        simp only [run] at h
        split at h
        case isTrue hd =>
          obtain ⟨rfl, rfl, rfl⟩ := Found.mk.inj <| List.mem_singleton.mp h
          exact ⟨⟨d, hd, rfl⟩, rfl⟩
        case isFalse => cases h
      case mpr =>
        rintro ⟨⟨c, hc, rfl⟩, h⟩
        obtain ⟨rfl, rfl⟩ := List.cons.inj h
        exact ⟨[], by simp [run, hc]⟩
  case seq r s hr hs =>
    rw [mem_seq]
    constructor
    case mp =>
      rintro ⟨gs, h⟩
      obtain ⟨f, hf, h⟩ := List.mem_flatMap.mp h
      obtain ⟨g, hg, he⟩ := List.mem_map.mp h
      obtain ⟨rfl, rfl, rfl⟩ := Found.mk.inj he
      obtain ⟨hf, hl⟩ := hr.mp ⟨_, hf⟩
      obtain ⟨hg, ht⟩ := hs.mp ⟨_, hg⟩
      exact ⟨⟨_, hf, _, hg, rfl⟩, by rw [List.append_assoc, ht, hl]⟩
    case mpr =>
      rintro ⟨⟨v, hv, w, hw, rfl⟩, hl⟩
      obtain ⟨gs, hf⟩ := hr.mpr ⟨hv, (List.append_assoc v w t).symm.trans hl⟩
      obtain ⟨gs', hg⟩ := @hs (w ++ t) w t |>.mpr ⟨hw, rfl⟩
      exact ⟨gs ++ gs', List.mem_flatMap.mpr ⟨_, hf, List.mem_map.mpr ⟨_, hg, rfl⟩⟩⟩
  case alt r s hr hs =>
    simp only [run, List.mem_append, exists_or, hr, hs, mem_alt, or_and_right]
  case opt r hr =>
    simp only [run, List.mem_append, exists_or, hr, mem_opt, or_and_right, List.mem_singleton]
    rw [or_comm]
    refine or_congr_left ⟨?_, ?_⟩
    · rintro ⟨gs, h⟩
      obtain ⟨-, rfl, rfl⟩ := Found.mk.inj h
      exact ⟨rfl, rfl⟩
    · rintro ⟨rfl, rfl⟩
      exact ⟨[], rfl⟩
  case many p => rw [run, mem_runMany, mem_many]
  case group n r hr =>
    rw [mem_group, ← hr, run]
    constructor
    case mp =>
      rintro ⟨gs, h⟩
      obtain ⟨f, hf, he⟩ := List.mem_map.mp h
      obtain ⟨rfl, rfl, rfl⟩ := Found.mk.inj he
      exact ⟨_, hf⟩
    case mpr => exact fun ⟨gs, hf⟩ => ⟨_, List.mem_map.mpr ⟨_, hf, rfl⟩⟩

theorem of_mem_run (h : f ∈ r.run l) : f.taken ∈ r.lang ∧ f.taken ++ f.rest = l :=
  mem_run.mp ⟨f.groups, h⟩

theorem run_eq_nil_iff : r.run l = [] ↔ ∀ u t, u ++ t = l → u ∉ r.lang := by
  rw [List.eq_nil_iff_forall_not_mem]
  constructor
  case mp =>
    intro h u t hl hu
    obtain ⟨gs, hm⟩ := mem_run.mpr ⟨hu, hl⟩
    exact h _ hm
  case mpr =>
    intro h f hf
    obtain ⟨hu, hl⟩ := of_mem_run hf
    exact h _ _ hl hu

theorem whole_eq_nil_iff : r.whole l = [] ↔ l ∉ r.lang := by
  rw [whole, List.filter_eq_nil_iff]
  constructor
  case mp =>
    intro h hl
    obtain ⟨gs, hm⟩ := @mem_run r l l [] |>.mpr ⟨hl, List.append_nil l⟩
    exact h _ hm <| by simp
  case mpr =>
    intro h f hf hn
    obtain ⟨hu, hl⟩ := of_mem_run hf
    rw [of_decide_eq_true hn, List.append_nil] at hl
    exact h <| hl ▸ hu

-- A text is matched as a whole just if it is of the language.
theorem matchWhole_isSome_iff : (matchWhole r l).isSome = true ↔ l ∈ r.lang := by
  rw [matchWhole, List.isSome_head?, ← not_iff_not, ← whole_eq_nil_iff]
  simp

theorem matchWhole_eq_none_iff : matchWhole r l = none ↔ l ∉ r.lang := by
  rw [matchWhole, List.head?_eq_none_iff, whole_eq_nil_iff]

end Found

section Groups

-- The groups of an expression.
def captures : Pattern → List (Nat × Pattern)
  | group n r => (n, r) :: r.captures
  | seq r s   => r.captures ++ s.captures
  | alt r s   => r.captures ++ s.captures
  | opt r     => r.captures
  | _         => []

-- A group that is in every way to match.
def always (n : Nat) : Pattern → Bool
  | group m r => n = m || r.always n
  | seq r s   => r.always n || s.always n
  | alt r s   => r.always n && s.always n
  | _         => false

theorem groups_of_mem_runMany (h : f ∈ runMany p l) : f.groups = [] := by
  induction l generalizing f
  case nil => rw [List.mem_singleton.mp h]; rfl
  case cons c l hi =>
    rw [runMany] at h
    split at h
    case isFalse => rw [List.mem_singleton.mp h]; rfl
    case isTrue  =>
      obtain h | h := List.mem_append.mp h
      · obtain ⟨g, hg, rfl⟩ := List.mem_map.mp h
        exact @hi g hg
      · rw [List.mem_singleton.mp h]; rfl

-- What a group holds is matched by its part of the expression.
theorem mem_captures (h : f ∈ r.run l) (hu : (n, u) ∈ f.groups) : ∃ s, (n, s) ∈ r.captures ∧ u ∈ s.lang := by
  induction r generalizing f l
  case one p =>
    cases l
    case nil      => cases h
    case cons c l =>
      rw [run] at h
      split at h
      case isTrue  => rw [List.mem_singleton.mp h] at hu; cases hu
      case isFalse => cases h
  case seq r s hr hs =>
    obtain ⟨g, hg, h⟩ := List.mem_flatMap.mp h
    obtain ⟨g', hg', rfl⟩ := List.mem_map.mp h
    obtain hu | hu := List.mem_append.mp hu
    · obtain ⟨s', hm, hl⟩ := hr hg hu
      exact ⟨s', List.mem_append_left _ hm, hl⟩
    · obtain ⟨s', hm, hl⟩ := hs hg' hu
      exact ⟨s', List.mem_append_right _ hm, hl⟩
  case alt r s hr hs =>
    obtain h | h := List.mem_append.mp h
    · obtain ⟨s', hm, hl⟩ := hr h hu
      exact ⟨s', List.mem_append_left _ hm, hl⟩
    · obtain ⟨s', hm, hl⟩ := hs h hu
      exact ⟨s', List.mem_append_right _ hm, hl⟩
  case opt r hr =>
    obtain h | h := List.mem_append.mp h
    · exact hr h hu
    · rw [List.mem_singleton.mp h] at hu
      cases hu
  case many p =>
    rw [groups_of_mem_runMany h] at hu
    cases hu
  case group m r hr =>
    obtain ⟨g, hg, rfl⟩ := List.mem_map.mp h
    obtain hu | hu := List.mem_cons.mp hu
    · obtain ⟨rfl, rfl⟩ := Prod.mk.inj hu
      exact ⟨r, .head _, (of_mem_run hg).1⟩
    · obtain ⟨s', hm, hl⟩ := hr hg hu
      exact ⟨s', .tail _ hm, hl⟩

theorem get?_isSome (h : f ∈ r.run l) (ha : r.always n = true) : (f.get? n).isSome = true := by
  simp only [Found.get?]
  induction r generalizing f l
  case one  => cases ha
  case opt  => cases ha
  case many => cases ha
  case seq r s hr hs =>
    obtain ⟨g, hg, h⟩ := List.mem_flatMap.mp h
    obtain ⟨g', hg', rfl⟩ := List.mem_map.mp h
    rw [Found.andThen, List.lookup_append, Option.isSome_or, Bool.or_eq_true]
    exact (Bool.or_eq_true _ _ ▸ ha).imp (hr hg) (hs hg')
  case alt r s hr hs =>
    obtain ⟨har, has⟩ := Bool.and_eq_true _ _ ▸ ha
    exact (List.mem_append.mp h).elim (hr · har) (hs · has)
  case group m r hr =>
    obtain ⟨g, hg, rfl⟩ := List.mem_map.mp h
    rw [Found.close, List.lookup_cons]
    split
    case h_1     => rfl
    case h_2 hne =>
      have ha : decide (n = m) = true ∨ r.always n = true := by simpa [always] using ha
      refine hr hg <| ha.resolve_left fun hm => ?_
      rw [of_decide_eq_true hm, beq_self_eq_true] at hne
      cases hne

-- A group of a match, of the only part that has its number.
theorem exists_group {s : Pattern} (h : matchWhole r l = some f) (ha : r.always n = true)
    (ho : ∀ s', (n, s') ∈ r.captures → s' = s) : ∃ u, f.get? n = some u ∧ u ∈ s.lang := by
  have hf : f ∈ r.run l := List.mem_of_mem_filter <| List.mem_of_mem_head? h
  obtain ⟨u, hu⟩ := Option.isSome_iff_exists.mp <| get?_isSome hf ha
  have hm : (n, u) ∈ f.groups := by
    rw [Found.get?, List.lookup_eq_some_iff] at hu
    obtain ⟨l₁, l₂, he, -⟩ := hu
    simp [he]
  obtain ⟨s', hc, hl⟩ := mem_captures hf hm
  exact ⟨u, hu, ho s' hc ▸ hl⟩

end Groups

section First

variable {gs gs' : List (Nat × List Char)}

theorem matchStart_eq_none_iff : matchStart r l = none ↔ ∀ u t, u ++ t = l → u ∉ r.lang := by
  rw [matchStart, List.head?_eq_none_iff, run_eq_nil_iff]

theorem matchStart_one_none (h : ∀ c ∈ t.head?, p c = false) : matchStart (one p) t = none := by
  refine matchStart_eq_none_iff.mpr ?_
  rintro u t' rfl ⟨c, hc, rfl⟩
  rw [h c rfl] at hc
  cases hc

theorem matchStart_seq_none (h : matchStart r t = none) : matchStart (seq r s) t = none := by
  rw [matchStart_eq_none_iff] at h ⊢
  intro u t' ht hu
  obtain ⟨v, hv, w, -, rfl⟩ := mem_seq.mp hu
  exact h v (w ++ t') (by rw [← ht, List.append_assoc]) hv

-- The first way to match takes off `u`, before `t`.
def Takes (r : Pattern) (u t : List Char) (gs : List (Nat × List Char)) : Prop :=
  r.matchStart (u ++ t) = some ⟨gs, u, t⟩

theorem takes_iff : Takes r u t gs ↔ ∃ fs, r.run (u ++ t) = ⟨gs, u, t⟩ :: fs := by
  rw [Takes, matchStart, List.head?_eq_some_iff]

theorem Takes.seq (hr : Takes r u (v ++ t) gs) (hs : Takes s v t gs') :
    Takes (seq r s) (u ++ v) t (gs ++ gs') := by
  obtain ⟨fs, hf⟩ := takes_iff.mp hr
  obtain ⟨fs', hg⟩ := takes_iff.mp hs
  rw [takes_iff, List.append_assoc, run, hf, List.flatMap_cons, hg]
  exact ⟨_, rfl⟩

-- What follows may be matched to the end.
theorem Takes.whole (hr : Takes r u t gs) (hs : matchWhole s t = some g) :
    matchWhole (.seq r s) (u ++ t) = some ⟨gs ++ g.groups, u ++ g.taken, g.rest⟩ := by
  obtain ⟨fs, hf⟩ := takes_iff.mp hr
  rw [matchWhole, List.head?_eq_some_iff] at hs ⊢
  obtain ⟨fs', hg⟩ := hs
  rw [Pattern.whole, run, hf, List.flatMap_cons, List.filter_append, List.filter_map]
  have he : (fun f : Found => decide (f.rest = [])) ∘ (Found.andThen ⟨gs, u, t⟩) =
      fun f : Found => decide (f.rest = []) := rfl
  rw [he, ← Pattern.whole, hg]
  exact ⟨_, rfl⟩

theorem takes_one (h : p c = true) : Takes (one p) [c] t [] := by
  rw [Takes, matchStart, List.singleton_append, run, if_pos h]
  rfl

theorem takes_many (hu : ∀ c ∈ u, p c = true) (ht : ∀ c ∈ t.head?, p c = false) : Takes (many p) u t [] := by
  rw [takes_iff, run]
  induction u
  case nil =>
    cases t
    case nil       => exact ⟨[], rfl⟩
    case cons c t  =>
      have hc : ¬p c = true := by simp [ht c rfl]
      rw [List.nil_append, runMany, if_neg hc]
      exact ⟨[], rfl⟩
  case cons c u hi =>
    obtain ⟨hc, hu⟩ := List.forall_mem_cons.mp hu
    obtain ⟨fs, hf⟩ := hi hu
    rw [List.cons_append, runMany, if_pos hc, hf]
    exact ⟨_, rfl⟩

theorem takes_plus (hn : u ≠ []) (hu : ∀ c ∈ u, p c = true) (ht : ∀ c ∈ t.head?, p c = false) :
    Takes (plus p) u t [] := by
  obtain ⟨c, w, rfl⟩ := List.exists_cons_of_ne_nil hn
  obtain ⟨hc, hw⟩ := List.forall_mem_cons.mp hu
  exact (takes_one hc).seq (takes_many hw ht)

theorem takes_char : Takes (char c) [c] t [] :=
  takes_one <| by simp

theorem takes_times (hl : u.length = n + 1) (hu : ∀ c ∈ u, p c = true) : Takes (times p n) u t [] := by
  obtain ⟨c, w, rfl⟩ := List.exists_cons_of_ne_nil <| List.ne_nil_of_length_eq_add_one hl
  obtain ⟨hc, hw⟩ := List.forall_mem_cons.mp hu
  induction n generalizing c w
  case zero =>
    obtain rfl : w = [] := by simpa using hl
    exact takes_one hc
  case succ n hi =>
    have hl : w.length = n + 1 := by simpa using hl
    obtain ⟨d, v, rfl⟩ := List.exists_cons_of_ne_nil <| List.ne_nil_of_length_eq_add_one hl
    obtain ⟨hd, hv⟩ := List.forall_mem_cons.mp hw
    exact (takes_one hc).seq (hi d v hl hw hd hv)

theorem takes_text : Takes (text c l) (c :: l) t [] := by
  induction l generalizing c
  case nil         => exact takes_char
  case cons d l hi => exact takes_char.seq hi

theorem Takes.alt_left (h : Takes r u t gs) : Takes (alt r s) u t gs := by
  obtain ⟨fs, hf⟩ := takes_iff.mp h
  rw [takes_iff, run, hf]
  exact ⟨_, rfl⟩

theorem Takes.alt_right (h : Takes s u t gs) (hn : matchStart r (u ++ t) = none) : Takes (alt r s) u t gs := by
  rw [matchStart, List.head?_eq_none_iff] at hn
  rwa [Takes, matchStart, run, hn, List.nil_append]

theorem Takes.opt (h : Takes r u t gs) : Takes (opt r) u t gs := by
  obtain ⟨fs, hf⟩ := takes_iff.mp h
  rw [takes_iff, run, hf]
  exact ⟨_, rfl⟩

theorem takes_opt_none (hn : matchStart r t = none) : Takes (opt r) [] t [] := by
  rw [matchStart, List.head?_eq_none_iff] at hn
  rw [Takes, matchStart, List.nil_append, run, hn]
  rfl

theorem Takes.group (h : Takes r u t gs) : Takes (group n r) u t ((n, u) :: gs) := by
  obtain ⟨fs, hf⟩ := takes_iff.mp h
  rw [takes_iff, run, hf]
  exact ⟨_, rfl⟩

-- A match from the start that leaves nothing is one of the whole.
theorem Takes.matchWhole (h : Takes r u [] gs) : matchWhole r u = some ⟨gs, u, []⟩ := by
  obtain ⟨fs, hf⟩ := takes_iff.mp h
  rw [List.append_nil] at hf
  rw [Pattern.matchWhole, Pattern.whole, hf, List.filter_cons_of_pos (by simp)]
  rfl

end First

section Whole

variable {q : Pattern}

theorem whole_seq : (seq r q).whole l = (r.run l).flatMap fun f => (q.whole f.rest).map f.andThen := by
  rw [whole, run, List.filter_flatMap]
  exact List.flatMap_congr fun f _ => by rw [List.filter_map, whole]; rfl

theorem whole_seq_assoc : (seq (seq r s) q).whole l = (seq r (seq s q)).whole l := by
  simp only [whole_seq, run, List.flatMap_assoc, List.map_flatMap, List.flatMap_map, List.map_map]
  refine List.flatMap_congr fun f _ => List.flatMap_congr fun g _ => List.map_congr_left fun h _ => ?_
  simp [Found.andThen]

theorem matchWhole_seq_assoc : matchWhole (seq (seq r s) q) l = matchWhole (seq r (seq s q)) l := by
  rw [matchWhole, matchWhole, whole_seq_assoc]

-- The second alternative counts where the first one does not get to the end.
theorem matchWhole_group_alt : matchWhole (seq (group n (alt r s)) q) l =
    (matchWhole (seq (group n r) q) l).or (matchWhole (seq (group n s) q) l) := by
  simp only [matchWhole, whole_seq, run, List.map_append, List.flatMap_append, List.head?_append]

theorem matchWhole_opt : matchWhole (seq (opt r) q) l = (matchWhole (seq r q) l).or (matchWhole q l) := by
  have hz : (q.whole l).map (Found.zero l).andThen = q.whole l := List.map_id _
  have hr : (Found.zero l).rest = l := rfl
  simp only [matchWhole, whole_seq, run, List.flatMap_append, List.flatMap_singleton, List.head?_append, hr, hz]

theorem runMany_concat (hu : ∀ d ∈ u, p d = true) (hc : p c = true) :
    ∃ fs, runMany p (u ++ [c]) = ⟨[], u ++ [c], []⟩ :: ⟨[], u, [c]⟩ :: fs := by
  induction u
  case nil         => exact ⟨[], by simp [runMany, hc, Found.zero, Found.push]⟩
  case cons d u hi =>
    obtain ⟨hd, hu⟩ := List.forall_mem_cons.mp hu
    obtain ⟨fs, hf⟩ := hi hu
    rw [List.cons_append, runMany, if_pos hd, hf]
    exact ⟨_, rfl⟩

-- The last of the characters is given back when nothing is left for what follows.
theorem matchWhole_many_concat (hu : ∀ d ∈ u, p d = true) (hc : p c = true) (hn : matchWhole q [] = none)
    (hq : matchWhole q [c] = some g) : matchWhole (seq (many p) q) (u ++ [c]) = some ⟨g.groups, u ++ g.taken, g.rest⟩ := by
  obtain ⟨fs, hf⟩ := runMany_concat hu hc
  obtain ⟨gs, hg⟩ := List.head?_eq_some_iff.mp hq
  rw [matchWhole, List.head?_eq_none_iff] at hn
  rw [matchWhole, whole_seq, run, hf, List.flatMap_cons, List.flatMap_cons, hn, hg]
  rfl

end Whole

-- Words of characters `p`, before something else.
section OneOf

variable {q : Pattern} {v w : String} {ws : List String}

theorem mem_literal (hw : w ≠ "") : u ∈ (literal w).lang ↔ u = w.toList := by
  obtain ⟨c, l, h⟩ := List.exists_cons_of_ne_nil <| String.toList_eq_nil_iff.not.mpr hw
  rw [literal, h]
  exact mem_text

theorem mem_oneOf (hv : v ≠ "") (hs : "" ∉ ws) : u ∈ (oneOf v ws).lang ↔ ∃ w ∈ v :: ws, u = w.toList := by
  induction ws generalizing v
  case nil           => simp [oneOf, mem_literal hv]
  case cons v' ws hi =>
    obtain ⟨hv', hs⟩ := not_or.mp <| List.mem_cons.not.mp hs
    rw [oneOf, mem_alt, mem_literal hv, hi (Ne.symm hv') hs]
    simp

theorem takes_literal (hw : w ≠ "") : Takes (literal w) w.toList t [] := by
  obtain ⟨c, l, h⟩ := List.exists_cons_of_ne_nil <| String.toList_eq_nil_iff.not.mpr hw
  rw [literal, h]
  exact takes_text

structure IsWord (p : Char → Bool) (w : String) : Prop where
  nonempty : w ≠ ""
  all      : ∀ c ∈ w.toList, p c = true

-- What is matched begins with no character of a word.
def Apart (p : Char → Bool) (q : Pattern) : Prop :=
  ∀ u ∈ q.lang, ∀ c ∈ u.head?, p c = false

theorem takeWhile_word (hu : ∀ c ∈ u, p c = true) (ht : ∀ c ∈ t.head?, p c = false) : (u ++ t).takeWhile p = u := by
  rw [List.takeWhile_append_of_pos hu]
  cases t
  case nil      => simp
  case cons c t => simp [ht c rfl]

theorem matchWhole_literal_eq_none (hw : IsWord p w) (hv : IsWord p v) (hq : Apart p q) (ht : ∀ c ∈ t.head?, p c = false)
    (hn : w ≠ v) : matchWhole (seq (group n <| literal v) q) (w.toList ++ t) = none := by
  rw [matchWhole_eq_none_iff, mem_seq]
  rintro ⟨u, hu, u', hu', h⟩
  obtain rfl := (mem_literal hv.nonempty).mp <| mem_group.mp hu
  have he := congrArg (List.takeWhile p) h
  rw [takeWhile_word hv.all <| hq u' hu', takeWhile_word hw.all ht] at he
  exact hn <| String.toList_inj.mp he.symm

theorem matchWhole_oneOf_eq_none (hw : IsWord p w) (hv : IsWord p v) (hs : ∀ v ∈ ws, IsWord p v) (hq : Apart p q)
    (ht : ∀ c ∈ t.head?, p c = false) (hn : w ∉ v :: ws) :
    matchWhole (seq (group n <| oneOf v ws) q) (w.toList ++ t) = none := by
  induction ws generalizing v
  case nil           => exact matchWhole_literal_eq_none hw hv hq ht <| by simpa using hn
  case cons v' ws hi =>
    obtain ⟨hv', hs⟩ := List.forall_mem_cons.mp hs
    obtain ⟨hn, hns⟩ := not_or.mp <| List.mem_cons.not.mp hn
    rw [oneOf, matchWhole_group_alt, matchWhole_literal_eq_none hw hv hq ht hn, Option.none_or]
    exact hi hv' hs hns

theorem matchWhole_oneOf (hw : IsWord p w) (hv : IsWord p v) (hs : ∀ v ∈ ws, IsWord p v) (hq : Apart p q)
    (ht : ∀ c ∈ t.head?, p c = false) (hm : w ∈ v :: ws) (hg : matchWhole q t = some g) :
    matchWhole (seq (group n <| oneOf v ws) q) (w.toList ++ t) =
      some ⟨(n, w.toList) :: g.groups, w.toList ++ g.taken, g.rest⟩ := by
  have hl (n : Nat) : matchWhole (seq (group n <| literal w) q) (w.toList ++ t) =
      some ⟨(n, w.toList) :: g.groups, w.toList ++ g.taken, g.rest⟩ :=
    (takes_literal hw.nonempty).group.whole hg
  induction ws generalizing v
  case nil           => rw [oneOf, ← List.mem_singleton.mp hm, hl]
  case cons v' ws hi =>
    obtain ⟨hv', hs⟩ := List.forall_mem_cons.mp hs
    rw [oneOf, matchWhole_group_alt]
    by_cases he : w = v
    · rw [← he, hl, Option.some_or]
    · rw [matchWhole_literal_eq_none hw hv hq ht he, Option.none_or]
      exact hi hv' hs <| (List.mem_cons.mp hm).resolve_left he

end OneOf

end Pattern
