import LoxilbUi.Library.RowLookup

-- The first of the rows that stand under each key.

namespace FirstByKey

variable {α κ : Type*} [DecidableEq κ] {key : α → κ} {seen : List κ} {rows : List α} {k : κ}

-- The keys in `seen` are taken.
def firsts (key : α → κ) : List κ → List α → List α
  | _, []           => []
  | seen, r :: rows =>
    if key r ∈ seen then firsts key seen rows else r :: firsts key (key r :: seen) rows

theorem firsts_sublist : (firsts key seen rows).Sublist rows := by
  induction rows generalizing seen
  case nil => exact .slnil
  case cons r rows hi =>
    rw [firsts]
    split
    case isTrue  => exact hi.cons r
    case isFalse => exact hi.cons_cons r

theorem mem_keys_firsts :
    k ∈ (firsts key seen rows).map key ↔ k ∉ seen ∧ k ∈ rows.map key := by
  induction rows generalizing seen
  case nil => simp [firsts]
  case cons r rows hi =>
    rw [firsts]
    split
    case isTrue h  =>
      rw [hi, List.map_cons, List.mem_cons]
      exact ⟨fun ⟨hs, hm⟩ => ⟨hs, .inr hm⟩, fun ⟨hs, hm⟩ => ⟨hs, hm.resolve_left fun he => hs (he ▸ h)⟩⟩
    case isFalse h =>
      simp only [List.map_cons, List.mem_cons, hi]
      by_cases hk : k = key r
      case pos => simp [hk, h]
      case neg => simp [hk]

theorem nodup_firsts : ((firsts key seen rows).map key).Nodup := by
  induction rows generalizing seen
  case nil => exact .nil
  case cons r rows hi =>
    rw [firsts]
    split
    case isTrue  => exact hi
    case isFalse =>
      refine List.nodup_cons.mpr ⟨fun hm => ?_, hi⟩
      exact (mem_keys_firsts.mp hm).left (.head _)

theorem find_firsts (hk : k ∉ seen) :
    RowLookup.find key (firsts key seen rows) k = RowLookup.find key rows k := by
  induction rows generalizing seen
  case nil => rfl
  case cons r rows hi =>
    rw [firsts]
    split
    case isTrue h =>
      have hr : key r ≠ k := fun he => hk (he ▸ h)
      rw [hi hk, RowLookup.find, RowLookup.find, List.find?_cons_of_neg (by simpa using hr)]
    case isFalse h =>
      by_cases hr : key r = k
      case pos => simp [RowLookup.find, hr]
      case neg =>
        have hi := @hi (key r :: seen) <| by simp [hk, Ne.symm hr]
        simpa [RowLookup.find, hr] using hi

theorem firsts_eq_self (hn : (rows.map key).Nodup) (hd : ∀ r ∈ rows, key r ∉ seen) :
    firsts key seen rows = rows := by
  induction rows generalizing seen
  case nil => rfl
  case cons r rows hi =>
    have ⟨hr, hn⟩ := List.nodup_cons.mp hn
    rw [firsts, if_neg (hd r <| .head _)]
    congr 1
    refine hi hn fun x hx hm => ?_
    obtain he | hm := List.mem_cons.mp hm
    · exact hr <| he ▸ List.mem_map_of_mem hx
    · exact hd x (.tail _ hx) hm

end FirstByKey
