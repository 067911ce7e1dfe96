import Mathlib.Data.List.Destutter
import Mathlib.Data.List.DropRight

-- The end of a history that an observation joins only when it stands in a relation to the one before.

namespace RecentHistory

variable {α : Type*} {R : α → α → Prop} {l : List α} {a : α} {n : Nat}

section Rtake

theorem getLast?_rtake (l : List α) (hn : 1 ≤ n) : (l.rtake n).getLast? = l.getLast? := by
  obtain ⟨n, rfl⟩ := Nat.exists_eq_add_of_le' hn
  induction l using List.reverseRecOn
  case nil              => rw [List.rtake_nil]
  case append_singleton => rw [List.rtake_concat_succ, List.getLast?_concat, List.getLast?_concat]

-- What was cut off is not missed when one more is cut off.
theorem rtake_rtake_concat (l : List α) (a : α) (n : Nat) :
    (l.rtake n ++ [a]).rtake n = (l ++ [a]).rtake n := by
  cases n
  case zero   => rw [List.rtake_zero, List.rtake_zero]
  case succ n =>
    have h : (l.rtake (n + 1)).rtake n = l.rtake n := by
      simp only [List.rtake_eq_reverse_take_reverse, List.reverse_reverse, List.take_take,
        Nat.min_eq_left (Nat.le_succ n)]
    rw [List.rtake_concat_succ, List.rtake_concat_succ, h]

theorem isChain_rtake (h : l.IsChain R) (n : Nat) : (l.rtake n).IsChain R :=
  h.drop _

end Rtake

-- Whether `a` is taken after what was taken before it.
def Taken (R : α → α → Prop) (l : List α) (a : α) : Prop :=
  ∀ b ∈ l.getLast?, R b a

theorem taken_rtake (hn : 1 ≤ n) : Taken R (l.rtake n) a ↔ Taken R l a := by
  rw [Taken, getLast?_rtake l hn, Taken]

section Destutter

variable [DecidableRel R]

instance : Decidable (Taken R l a) :=
  match h : l.getLast? with
  | none   => isTrue <| by simp [Taken, h]
  | some b => decidable_of_iff (R b a) <| by simp [Taken, h]

theorem destutter'_concat (b : α) (l : List α) (a : α) :
    ∃ h : l.destutter' R b ≠ [], (l ++ [a]).destutter' R b =
      if R ((l.destutter' R b).getLast h) a then l.destutter' R b ++ [a] else l.destutter' R b := by
  induction l generalizing b
  case nil =>
    refine ⟨by simp, ?_⟩
    rw [List.nil_append, List.destutter'_singleton]
    rfl
  case cons c l hi =>
    by_cases hr : R b c
    case pos =>
      obtain ⟨h, hi⟩ := hi c
      simp only [List.cons_append, List.destutter'_cons_pos (h := hr), List.getLast_cons h, hi]
      exact ⟨by simp, by split <;> rfl⟩
    case neg =>
      simp only [List.cons_append, List.destutter'_cons_neg (h := hr)]
      exact hi b

theorem destutter_concat (l : List α) (a : α) :
    (l ++ [a]).destutter R =
      if Taken R (l.destutter R) a then l.destutter R ++ [a] else l.destutter R := by
  cases l
  case nil => simp [Taken]
  case cons b l =>
    obtain ⟨h, hc⟩ := @destutter'_concat _ R _ b l a
    simp only [List.cons_append, List.destutter_cons', hc, Taken, List.getLast?_eq_some_getLast h,
      Option.mem_some_iff, forall_eq']

-- Of what is kept, one more observation makes what is kept of all of them.
theorem rtake_destutter_concat (hn : 1 ≤ n) (l : List α) (a : α) :
    ((l ++ [a]).destutter R).rtake n =
      if Taken R ((l.destutter R).rtake n) a then ((l.destutter R).rtake n ++ [a]).rtake n
      else (l.destutter R).rtake n := by
  rw [destutter_concat]
  simp only [taken_rtake hn]
  split
  case isTrue  => exact (rtake_rtake_concat _ a n).symm
  case isFalse => rfl

end Destutter
end RecentHistory
