import Mathlib.Data.List.Infix
import Mathlib.Logic.Function.Basic

-- Codes that write a symbol so that the next one can be told apart from it.

namespace PrefixCode

variable {α β γ : Type*} {f : α → List β} {g : β → List γ} {xs ys : List α} {r s : List β}

structure IsCode (f : α → List β) : Prop where
  ne_nil : ∀ a, f a ≠ []
  inj    : ∀ {a b r s}, f a ++ r = f b ++ s → a = b

-- Of two texts that begin the same one is the beginning of the other.
theorem IsCode.prefix_or_prefix (hf : IsCode f) (h : xs.flatMap f ++ r = ys.flatMap f ++ s) :
    xs <+: ys ∨ ys <+: xs := by
  induction xs generalizing ys
  case nil => exact .inl List.nil_prefix
  case cons x xs hi =>
    cases ys
    case nil => exact .inr List.nil_prefix
    case cons y ys =>
      simp only [List.flatMap_cons, List.append_assoc] at h
      obtain rfl := hf.inj h
      simpa [List.cons_prefix_cons] using hi <| List.append_cancel_left h

theorem IsCode.flatMap_injective (hf : IsCode f) : Function.Injective (List.flatMap f) := by
  intro xs ys h
  induction xs generalizing ys
  case nil =>
    cases ys
    case nil       => rfl
    case cons y ys => simp [hf.ne_nil] at h
  case cons x xs hi =>
    cases ys
    case nil => simp [hf.ne_nil] at h
    case cons y ys =>
      rw [List.flatMap_cons, List.flatMap_cons] at h
      obtain rfl := hf.inj h
      rw [hi <| List.append_cancel_left h]

-- The symbols of a code written in another code.
theorem IsCode.comp (hf : IsCode f) (hg : IsCode g) : IsCode fun a => (f a).flatMap g where
  ne_nil a := by
    obtain ⟨b, l, hl⟩ := List.exists_cons_of_ne_nil (hf.ne_nil a)
    simp [hl, hg.ne_nil]
  inj {a b} _ _ h := by
    obtain ⟨t, ht⟩ | ⟨t, ht⟩ := hg.prefix_or_prefix h
    · exact hf.inj <| ht.trans (List.append_nil _).symm
    · exact (hf.inj <| ht.trans (List.append_nil _).symm).symm

-- Some symbols stand for themselves, where no code word begins with one.
theorem IsCode.plain {p : α → Bool} {e : α → β} (hf : IsCode f)
    (he : ∀ a b, p a = true → p b = true → e a = e b → a = b)
    (hm : ∀ a b l, p a = true → f b ≠ e a :: l) : IsCode fun a => if p a then [e a] else f a where
  ne_nil a := by
    split
    · simp
    · exact hf.ne_nil a
  inj {a b r s} h := by
    have hword (a b) (ha : p a = true) : [e a] ++ r ≠ f b ++ s := by
      obtain ⟨x, l, hl⟩ := List.exists_cons_of_ne_nil (hf.ne_nil b)
      rw [hl]
      intro h
      exact hm a b l ha <| hl.trans <| congrArg (· :: l) (List.cons.inj h).1.symm
    have hword' (a b) (ha : p a = true) : f b ++ r ≠ [e a] ++ s := by
      obtain ⟨x, l, hl⟩ := List.exists_cons_of_ne_nil (hf.ne_nil b)
      rw [hl]
      intro h
      exact hm a b l ha <| hl.trans <| congrArg (· :: l) (List.cons.inj h).1
    split at h
    case isTrue ha =>
      split at h
      case isTrue hb  => exact he a b ha hb (List.cons.inj h).1
      case isFalse    => exact absurd h <| hword a b ha
    case isFalse =>
      split at h
      case isTrue hb  => exact absurd h <| hword' b a hb
      case isFalse    => exact hf.inj h

end PrefixCode
