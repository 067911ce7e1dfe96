import Mathlib.Data.List.Forall2

-- Lists that are related place by place.

namespace Forall₂

variable {α β γ : Type*} {R : α → β → Prop} {l₁ : List α} {l₂ : List β}

theorem exists_left {b : β} (h : List.Forall₂ R l₁ l₂) (hb : b ∈ l₂) : ∃ a ∈ l₁, R a b := by
  induction h
  case nil => simp at hb
  case cons a b' _ _ hr _ hi =>
    obtain rfl | hb := List.mem_cons.mp hb
    · exact ⟨a, by simp, hr⟩
    · obtain ⟨a', ha, hr⟩ := hi hb
      exact ⟨a', by simp [ha], hr⟩

theorem exists_right {a : α} (h : List.Forall₂ R l₁ l₂) (ha : a ∈ l₁) : ∃ b ∈ l₂, R a b :=
  exists_left (R := flip R) h.flip ha

theorem map_eq {f : α → γ} {g : β → γ} (h : List.Forall₂ R l₁ l₂) (hr : ∀ a b, R a b → f a = g b) :
    l₁.map f = l₂.map g := by
  induction h
  case nil => rfl
  case cons h _ hi => rw [List.map_cons, List.map_cons, hr _ _ h, hi]

end Forall₂
