import Mathlib.Data.List.Induction
import Mathlib.Data.List.Pairwise

-- Rows that each write one key of a map, one after the other: the last row of a key is what counts.

namespace LastWrite

variable {α σ γ κ : Type*} [DecidableEq κ] {key : α → κ} {k : κ} {rows rows' : List α} {r : α}

def last (key : α → κ) (k : κ) (rows : List α) : Option α :=
  rows.reverse.find? fun r => key r = k

@[simp]
theorem last_nil : last key k [] = none :=
  rfl

theorem last_concat : last key k (rows ++ [r]) = if key r = k then some r else last key k rows := by
  simp only [last, List.reverse_append, List.reverse_singleton, List.singleton_append,
    List.find?_cons]
  by_cases h : key r = k <;> simp [h]

theorem last_inv (h : last key k rows = some r) : r ∈ rows ∧ key r = k := by
  rw [last] at h
  exact ⟨List.mem_reverse.mp <| List.mem_of_find?_eq_some h, by simpa using List.find?_some h⟩

theorem last_eq_none_iff : last key k rows = none ↔ ∀ r ∈ rows, key r ≠ k := by
  simp [last]

-- A state of which every row writes what is read of it at its own key, and nothing else.
theorem foldl_last (step : σ → α → σ) (read : σ → γ) (write : α → γ) (s : σ)
    (h : ∀ s r, read (step s r) = if key r = k then write r else read s) :
    read (rows.foldl step s) = ((last key k rows).map write).getD (read s) := by
  induction rows using List.reverseRecOn
  case nil => rfl
  case append_singleton rows r hi =>
    rw [List.foldl_append, List.foldl_cons, List.foldl_nil, h, last_concat]
    split
    case isTrue  => rfl
    case isFalse => exact hi

-- No two rows write the key.
def Once (key : α → κ) (k : κ) (rows : List α) : Prop :=
  rows.Pairwise fun r r' => ¬(key r = k ∧ key r' = k)

omit [DecidableEq κ] in
theorem Once.perm (h : Once key k rows) (hp : rows.Perm rows') : Once key k rows' :=
  hp.pairwise h fun hr hc => hr ⟨hc.2, hc.1⟩

omit [DecidableEq κ] in
theorem Once.of_nodup (h : (rows.map key).Nodup) : Once key k rows :=
  (List.pairwise_map.mp h).imp fun hr hc => hr <| hc.1.trans hc.2.symm

theorem Once.last_eq_some_iff (h : Once key k rows) :
    last key k rows = some r ↔ r ∈ rows ∧ key r = k := by
  refine ⟨last_inv, ?_⟩
  rintro ⟨hm, hk⟩
  induction rows using List.reverseRecOn
  case nil => contradiction
  case append_singleton rows r₁ hi =>
    obtain ⟨hrows, -, hr₁⟩ := List.pairwise_append.mp h
    rw [last_concat]
    obtain hm | hm := List.mem_append.mp hm
    · rw [if_neg fun hc => hr₁ r hm r₁ (.head _) ⟨hk, hc⟩]
      exact hi hrows hm
    · rw [List.mem_singleton.mp hm] at hk ⊢
      exact if_pos hk

-- Of a key that is written once, the first row is the last.
theorem Once.find?_eq_some_iff (h : Once key k rows) :
    (rows.find? fun r => key r = k) = some r ↔ r ∈ rows ∧ key r = k := by
  simpa [last] using (h.perm rows.reverse_perm.symm).last_eq_some_iff (r := r)

theorem Once.last_perm (h : Once key k rows) (hp : rows.Perm rows') :
    last key k rows = last key k rows' := by
  refine Option.ext fun r => ?_
  rw [h.last_eq_some_iff, (h.perm hp).last_eq_some_iff, hp.mem_iff]

theorem last_map {β : Type*} {f : β → α} {l : List β} :
    last key k (l.map f) = (last (fun b => key (f b)) k l).map f := by
  simp only [last, ← List.map_reverse, List.find?_map]
  rfl

theorem last_filter {p : α → Bool} (h : ∀ r, key r = k → p r = true) :
    last key k (rows.filter p) = last key k rows := by
  rw [last, last, ← List.filter_reverse, List.find?_filter]
  congr 1
  funext r
  by_cases hk : key r = k
  · simp [hk, h r hk]
  · simp [hk]

end LastWrite
