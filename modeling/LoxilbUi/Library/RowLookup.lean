import Mathlib.Data.List.Nodup

-- Rows that are told by a key that two of them may share, and looked up again by it.

namespace RowLookup

variable {α κ : Type*} [DecidableEq κ] {key : α → κ} {rows picks : List α} {x y : α}

def find (key : α → κ) (rows : List α) (k : κ) : Option α :=
  rows.find? fun row => key row = k

theorem key_of_find {k : κ} (h : find key rows k = some x) : key x = k := by
  simpa using List.find?_some h

-- The first row with the key of a listed one is that row, where no other has the key.
theorem find_of_mem (hx : x ∈ rows) (h : ∀ y ∈ rows, key y = key x → y = x) :
    find key rows (key x) = some x := by
  obtain ⟨y, hy⟩ : ∃ y, find key rows (key x) = some y := by
    rw [← Option.isSome_iff_exists, find, List.find?_isSome]
    exact ⟨x, hx, by simp⟩
  rw [hy, h y (List.mem_of_find?_eq_some hy) (key_of_find hy)]

theorem find_iff : (∀ x ∈ rows, find key rows (key x) = some x) ↔
    ∀ x ∈ rows, ∀ y ∈ rows, key x = key y → x = y := by
  constructor
  case mp =>
    intro h x hx y hy hk
    have he := h x hx
    rw [hk, h y hy] at he
    exact (Option.some.inj he).symm
  case mpr => exact fun h x hx => find_of_mem hx fun y hy => h y hy x hx

-- Every choice of listed rows is found again by its keys just if each row is.
theorem filterMap_find_iff :
    (∀ picks : List α, (∀ x ∈ picks, x ∈ rows) → (picks.map key).filterMap (find key rows) = picks) ↔
      ∀ x ∈ rows, find key rows (key x) = some x := by
  constructor
  case mp =>
    intro h x hx
    have h := h [x] <| by simpa using hx
    cases hf : find key rows (key x) <;> simp_all
  case mpr =>
    intro h picks hp
    induction picks
    case nil => rfl
    case cons x picks hi =>
      rw [List.forall_mem_cons] at hp
      rw [List.map_cons, List.filterMap_cons, h x hp.1]
      exact congrArg (x :: ·) <| hi hp.2

section Filter

variable {k : κ}

-- With no key twice, the rows of a key are the one row with it.
theorem filter_of_mem (hn : (rows.map key).Nodup) (hx : x ∈ rows) :
    rows.filter (key · = key x) = [x] := by
  induction rows
  case nil => contradiction
  case cons y rows hi =>
    rw [List.map_cons, List.nodup_cons] at hn
    obtain rfl | hx := List.mem_cons.mp hx
    · have hr : rows.filter (key · = key x) = [] := by
        refine List.filter_eq_nil_iff.mpr fun z hz h => hn.1 ?_
        exact List.mem_map.mpr ⟨z, hz, by simpa using h⟩
      simp [hr]
    · have hy : key y ≠ key x := fun h => hn.1 <| List.mem_map.mpr ⟨x, hx, h.symm⟩
      simp [hy, hi hn.2 hx]

theorem filter_of_not_mem (h : k ∉ rows.map key) : rows.filter (key · = k) = [] :=
  List.filter_eq_nil_iff.mpr fun x hx he => h <| List.mem_map.mpr ⟨x, hx, by simpa using he⟩

-- What is made of the rows keeps their keys.
theorem filter_filterMap {γ : Type*} {f : α → Option γ} {key' : γ → κ}
    (h : ∀ x y, f x = some y → key' y = key x) :
    (rows.filterMap f).filter (key' · = k) = (rows.filter (key · = k)).filterMap f := by
  induction rows
  case nil => rfl
  case cons x rows hi =>
    cases hf : f x
    case none =>
      by_cases hk : key x = k <;> simp [hf, hk, hi]
    case some y =>
      have hy := h x y hf
      by_cases hk : key x = k <;> simp [hf, hy, hk, hi]

end Filter

end RowLookup
