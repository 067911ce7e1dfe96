import Mathlib.Data.List.Induction

-- What a list of values tells of the value that it holds: that there is none, the one, or that there are
-- several. Once there are several, nothing that follows changes it.

inductive Verdict (α : Type*)
  | none
  | one (a : α)
  | several

namespace Verdict

variable {α : Type*} [DecidableEq α] {a : α} {l l' : List α}

def add : Verdict α → α → Verdict α
  | none,    a => one a
  | one b,   a => if b = a then one b else several
  | several, _ => several

def ofList (l : List α) : Verdict α :=
  l.foldl add none

theorem ofList_concat : ofList (l ++ [a]) = (ofList l).add a := by
  simp [ofList]

-- The values are as the verdict says.
def Holds (l : List α) : Verdict α → Prop
  | none    => l = []
  | one a   => l ≠ [] ∧ ∀ b ∈ l, b = a
  | several => ∃ a ∈ l, ∃ b ∈ l, a ≠ b

omit [DecidableEq α] in
theorem Holds.unique {v w : Verdict α} (h : Holds l v) (h' : Holds l w) : v = w := by
  cases v <;> cases w <;> simp only [Holds, ne_eq] at h h'
  case none.none           => rfl
  case several.several     => rfl
  case none.one            => exact absurd h h'.1
  case one.none            => exact absurd h' h.1
  case none.several        => simp [h] at h'
  case several.none        => simp [h'] at h
  case one.one a b         =>
    obtain ⟨x, hx⟩ := List.exists_mem_of_ne_nil l h.1
    rw [← h.2 x hx, ← h'.2 x hx]
  case one.several a       =>
    obtain ⟨x, hx, y, hy, hn⟩ := h'
    exact absurd ((h.2 x hx).trans (h.2 y hy).symm) hn
  case several.one a       =>
    obtain ⟨x, hx, y, hy, hn⟩ := h
    exact absurd ((h'.2 x hx).trans (h'.2 y hy).symm) hn

theorem holds_ofList (l : List α) : Holds l (ofList l) := by
  induction l using List.reverseRecOn
  case nil => rfl
  case append_singleton l a hi =>
    rw [ofList_concat]
    cases hv : ofList l <;> rw [hv] at hi
    case none =>
      obtain rfl : l = [] := hi
      exact ⟨by simp, by simp⟩
    case one b =>
      rw [add]
      split
      case isTrue h =>
        subst h
        refine ⟨by simp, fun x hx => ?_⟩
        exact (List.mem_append.mp hx).elim (hi.2 x) List.mem_singleton.mp
      case isFalse h =>
        obtain ⟨x, hx⟩ := List.exists_mem_of_ne_nil l hi.1
        exact ⟨x, by simp [hx], a, by simp, hi.2 x hx ▸ h⟩
    case several =>
      obtain ⟨x, hx, y, hy, hn⟩ := hi
      exact ⟨x, by simp [hx], y, by simp [hy], hn⟩

theorem ofList_eq_iff {v : Verdict α} : ofList l = v ↔ Holds l v :=
  ⟨fun h => h ▸ holds_ofList l, fun h => (holds_ofList l).unique h⟩

-- Only which values there are counts, neither their order nor how often each is there.
theorem ofList_congr (h : ∀ a, a ∈ l ↔ a ∈ l') : ofList l = ofList l' := by
  refine ofList_eq_iff.mpr ?_
  have hl := holds_ofList l'
  cases hv : ofList l' <;> rw [hv] at hl
  case none =>
    obtain rfl : l' = [] := hl
    exact List.eq_nil_iff_forall_not_mem.mpr fun a ha => by simpa using (h a).mp ha
  case one b =>
    refine ⟨?_, fun a ha => hl.2 a <| (h a).mp ha⟩
    obtain ⟨x, hx⟩ := List.exists_mem_of_ne_nil l' hl.1
    exact List.ne_nil_of_mem <| (h x).mpr hx
  case several =>
    obtain ⟨x, hx, y, hy, hn⟩ := hl
    exact ⟨x, (h x).mpr hx, y, (h y).mpr hy, hn⟩

-- A larger list says the same just if it says already that there are several, or holds nothing more.
theorem ofList_eq_of_subset_iff (h : ∀ a ∈ l, a ∈ l') :
    ofList l' = ofList l ↔ Holds l several ∨ ∀ a ∈ l', a ∈ l := by
  constructor
  case mp =>
    intro he
    refine or_iff_not_imp_left.mpr fun hn => ?_
    have hl := holds_ofList l
    have hl' := holds_ofList l'
    rw [he] at hl'
    cases hv : ofList l <;> rw [hv] at hl hl'
    case none =>
      obtain rfl : l' = [] := hl'
      simp
    case one b =>
      intro a ha
      obtain ⟨x, hx⟩ := List.exists_mem_of_ne_nil l hl.1
      rwa [hl'.2 a ha, ← hl.2 x hx]
    case several => exact absurd hl hn
  case mpr =>
    rintro (hs | hsub)
    · rw [ofList_eq_iff.mpr hs]
      obtain ⟨x, hx, y, hy, hn⟩ := hs
      exact ofList_eq_iff.mpr ⟨x, h x hx, y, h y hy, hn⟩
    · exact ofList_congr fun a => ⟨hsub a, h a⟩

end Verdict
