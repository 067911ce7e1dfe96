import Mathlib.Data.List.Induction
import Mathlib.Data.List.Nodup
import Mathlib.Data.List.Perm.Subperm
import Mathlib.Tactic.Tauto

-- Maps with text keys that remember the order in which their keys were first set.

structure Dict (β : Type*) where
  entries : List (String × β)
  nodup   : (entries.map Prod.fst).Nodup

namespace Dict

variable {β : Type*} {d : Dict β} {k j : String} {v w : β} {l : List (String × β)}

def keys (d : Dict β) : List String :=
  d.entries.map Prod.fst

def get? (d : Dict β) (k : String) : Option β :=
  d.entries.lookup k

def has (d : Dict β) (k : String) : Bool :=
  (d.get? k).isSome

def size (d : Dict β) : Nat :=
  d.entries.length

def empty : Dict β where
  entries := []
  nodup   := .nil

-- A key that is there keeps its place.
def put (k : String) (v : β) : List (String × β) → List (String × β)
  | []     => [(k, v)]
  | p :: l => if p.1 = k then (k, v) :: l else p :: put k v l

theorem lookup_cons : ((k, v) :: l).lookup j = if j = k then some v else l.lookup j := by
  by_cases h : j = k
  · simp [h]
  · have hb : (j == k) = false := by simpa using h
    simp [List.lookup_cons, h, hb]

theorem mem_of_lookup (h : l.lookup k = some v) : (k, v) ∈ l := by
  induction l
  case nil => simp at h
  case cons p l hi =>
    obtain ⟨j, u⟩ := p
    rw [lookup_cons] at h
    split at h
    case isTrue hk  => simp_all
    case isFalse hk => simp [hi h]

theorem lookup_eq_none (h : k ∉ l.map Prod.fst) : l.lookup k = none :=
  Option.eq_none_iff_forall_ne_some.mpr fun _ hl =>
    h <| List.mem_map.mpr ⟨_, mem_of_lookup hl, rfl⟩

theorem mem_keys_put : j ∈ (put k v l).map Prod.fst ↔ j = k ∨ j ∈ l.map Prod.fst := by
  induction l
  case nil => simp [put]
  case cons p l hi =>
    simp only [put]
    split
    case isTrue h  => simp [← h]
    case isFalse h => simp only [List.map_cons, List.mem_cons, hi]; tauto

theorem nodup_put (h : (l.map Prod.fst).Nodup) : ((put k v l).map Prod.fst).Nodup := by
  induction l
  case nil => simp [put]
  case cons p l hi =>
    simp only [List.map_cons, List.nodup_cons] at h
    simp only [put]
    split
    case isTrue hk  => exact hk ▸ List.nodup_cons.mpr h
    case isFalse hk =>
      refine List.nodup_cons.mpr ⟨fun hm => ?_, hi h.right⟩
      exact (mem_keys_put.mp hm).elim hk h.left

theorem lookup_put : (put k v l).lookup j = if j = k then some v else l.lookup j := by
  induction l
  case nil => simp only [put, lookup_cons]
  case cons p l hi =>
    obtain ⟨i, u⟩ := p
    simp only [put]
    split
    case isTrue h =>
      obtain rfl := h
      simp only [lookup_cons]
      split <;> rfl
    case isFalse h =>
      simp only [lookup_cons, hi]
      by_cases hj : j = i
      · subst hj
        simp [h]
      · simp [hj]

def set (d : Dict β) (k : String) (v : β) : Dict β where
  entries := put k v d.entries
  nodup   := nodup_put d.nodup

-- Of two entries with one key the later counts, at the place of the earlier.
def ofList (l : List (String × β)) : Dict β :=
  l.foldl (fun d p => d.set p.1 p.2) empty

@[simp]
theorem get?_set : (d.set k v).get? j = if j = k then some v else d.get? j :=
  lookup_put

theorem mem_keys_set : j ∈ (d.set k v).keys ↔ j = k ∨ j ∈ d.keys :=
  mem_keys_put

theorem ofList_concat {p : String × β} : ofList (l ++ [p]) = (ofList l).set p.1 p.2 := by
  simp [ofList]

theorem mem_keys_ofList : j ∈ (ofList l).keys ↔ j ∈ l.map Prod.fst := by
  induction l using List.reverseRecOn
  case nil => simp [ofList, empty, keys]
  case append_singleton l p hi =>
    rw [ofList_concat, mem_keys_set, hi]
    simp [or_comm, eq_comm]

theorem get?_ofList : (ofList l).get? j = l.reverse.lookup j := by
  induction l using List.reverseRecOn
  case nil => rfl
  case append_singleton l p hi =>
    obtain ⟨k, v⟩ := p
    rw [ofList_concat, get?_set, hi, List.reverse_concat, lookup_cons]

theorem get?_ofList_append {r : List (String × β)} (h : ∀ p ∈ r, p.1 ≠ k) :
    (ofList (l ++ (k, v) :: r)).get? k = some v := by
  induction r using List.reverseRecOn
  case nil => rw [ofList_concat, get?_set, if_pos rfl]
  case append_singleton r p hi =>
    rw [← List.cons_append, ← List.append_assoc, ofList_concat, get?_set, if_neg]
    · exact hi fun p hp => h p <| by simp [hp]
    · exact (h p (by simp)).symm

theorem get?_eq_some_iff : d.get? k = some v ↔ (k, v) ∈ d.entries := by
  have h := d.nodup
  simp only [get?]
  generalize d.entries = l at h
  induction l
  case nil => simp
  case cons p l hi =>
    obtain ⟨j, u⟩ := p
    simp only [List.map_cons, List.nodup_cons] at h
    simp only [lookup_cons, List.mem_cons, Prod.mk.injEq]
    by_cases hk : k = j
    · subst hk
      have hn : (k, v) ∉ l := fun hm => h.left <| List.mem_map_of_mem (f := Prod.fst) hm
      simp [hn, eq_comm]
    · simp [hk, hi h.right]

theorem mem_keys_iff : k ∈ d.keys ↔ ∃ v, d.get? k = some v := by
  simp [keys, get?_eq_some_iff]

theorem get?_eq_none_of_keys {d e : Dict β} (h : d.keys ⊆ e.keys) (hk : e.get? k = none) :
    d.get? k = none := by
  cases hd : d.get? k
  case none   => rfl
  case some v =>
    obtain ⟨w, hw⟩ := mem_keys_iff.mp <| h <| mem_keys_iff.mpr ⟨v, hd⟩
    simp [hk] at hw

theorem mem_of_get?_ofList (h : (ofList l).get? k = some v) : (k, v) ∈ l := by
  rw [get?_ofList] at h
  simpa using mem_of_lookup h

theorem size_eq_of_keys {d e : Dict β} (h : ∀ k, k ∈ d.keys ↔ k ∈ e.keys) : d.size = e.size := by
  have hp : d.keys.Perm e.keys := (List.perm_ext_iff_of_nodup d.nodup e.nodup).mpr h
  simpa [keys, size] using hp.length_eq

theorem eq_empty_of_size (h : d.size = 0) : d = empty := by
  obtain ⟨l, hl⟩ := d
  obtain rfl : l = [] := List.eq_nil_of_length_eq_zero h
  rfl

theorem size_set_ne_zero : (d.set k v).size ≠ 0 := fun h => by
  have hk : k ∈ (d.set k v).keys := mem_keys_set.mpr <| .inl rfl
  rw [eq_empty_of_size h] at hk
  cases hk

theorem keys_of_size_eq {d e : Dict β} (hs : d.size = e.size) (h : d.keys ⊆ e.keys) :
    e.keys ⊆ d.keys := by
  have hl : e.keys.length ≤ d.keys.length := by simpa [keys, size] using Nat.le_of_eq hs.symm
  exact ((List.subperm_of_subset d.nodup h).perm_of_length_le hl).symm.subset

section Without

def without (ks : List String) (d : Dict β) : Dict β where
  entries := d.entries.filter (·.1 ∉ ks)
  nodup   := d.nodup.sublist <| List.filter_sublist.map _

theorem lookup_filter {p : String → Bool} :
    (l.filter (p ·.1)).lookup k = if p k then l.lookup k else none := by
  induction l
  case nil => simp
  case cons e l hi =>
    obtain ⟨j, u⟩ := e
    by_cases hj : p j = true
    · rw [List.filter_cons_of_pos (by simpa using hj), lookup_cons, lookup_cons, hi]
      by_cases hk : k = j <;> simp_all
    · rw [List.filter_cons_of_neg (by simpa using hj), hi, lookup_cons]
      by_cases hk : k = j <;> simp_all

theorem lookup_filter_entries {f : String → β → Bool} (hn : (l.map Prod.fst).Nodup) :
    (l.filter fun (j, u) => f j u).lookup k = (l.lookup k).filter (f k) := by
  induction l
  case nil => rfl
  case cons e l hi =>
    obtain ⟨j, u⟩ := e
    obtain ⟨hj, hl⟩ := List.nodup_cons.mp hn
    rw [List.filter_cons, lookup_cons]
    by_cases hf : f j u = true
    · rw [if_pos hf, lookup_cons, hi hl]
      split
      case isTrue h  => rw [h, Option.filter_some, if_pos hf]
      case isFalse h => rfl
    · rw [if_neg hf, hi hl]
      split
      case isTrue h  =>
        rw [h, lookup_eq_none hj, Option.filter_some, if_neg hf]
        rfl
      case isFalse h => rfl

@[simp]
theorem get?_without {ks : List String} :
    (d.without ks).get? k = if k ∈ ks then none else d.get? k := by
  simp only [get?, without, lookup_filter (p := fun j => decide (j ∉ ks)), decide_eq_true_eq, ite_not]

theorem without_eq_self {ks : List String} (h : ∀ k ∈ ks, d.get? k = none) : d.without ks = d := by
  obtain ⟨l, hn⟩ := d
  simp only [without, mk.injEq, List.filter_eq_self, decide_eq_true_eq]
  rintro ⟨j, w⟩ hm hk
  have hs := get?_eq_some_iff (d := ⟨l, hn⟩) |>.mpr hm
  rw [h j hk] at hs
  contradiction

end Without

theorem put_append {r : List (String × β)} (h : k ∉ l.map Prod.fst) : put k v (l ++ r) = l ++ put k v r := by
  induction l
  case nil => rfl
  case cons p l hi =>
    obtain ⟨hp, hl⟩ := not_or.mp <| mt List.mem_cons.mpr h
    rw [List.cons_append, put, if_neg (Ne.symm hp), hi hl, List.cons_append]

theorem put_of_not_mem (h : k ∉ l.map Prod.fst) : put k v l = l ++ [(k, v)] := by
  rw [← put, ← put_append h, List.append_nil]

-- Where no key stands twice, the entries are those of the list.
theorem entries_ofList (h : (l.map Prod.fst).Nodup) : (ofList l).entries = l := by
  induction l using List.reverseRecOn
  case nil => rfl
  case append_singleton l p hi =>
    rw [List.map_append, List.nodup_append] at h
    have hp : put p.1 p.2 (ofList l).entries = l ++ [p] := by
      rw [hi h.1]
      exact put_of_not_mem fun hm => h.2.2 p.1 hm p.1 (by simp) rfl
    rw [ofList_concat]
    exact hp

theorem put_eq_self (h : l.lookup k = some v) : put k v l = l := by
  induction l
  case nil => simp at h
  case cons p l hi =>
    obtain ⟨j, w⟩ := p
    rw [lookup_cons] at h
    simp only [put]
    split
    case isTrue hj =>
      obtain rfl : v = w := by simpa [hj] using h.symm
      rw [hj]
    case isFalse hj =>
      rw [if_neg (Ne.symm hj)] at h
      rw [hi h]

theorem set_eq_self (h : d.get? k = some v) : d.set k v = d := by
  obtain ⟨l, hn⟩ := d
  simp only [set, mk.injEq]
  exact put_eq_self h

theorem eq_of_entries {d e : Dict β} (h : d.entries = e.entries) : d = e := by
  cases d
  cases e
  cases h
  rfl

theorem put_put : put k w (put k v l) = put k w l := by
  induction l
  case nil => simp [put]
  case cons p l hi =>
    simp only [put]
    by_cases h : p.1 = k
    · simp [h, put]
    · simp [h, put, hi]

-- The later of two writes to one key.
theorem set_set : (d.set k v).set k w = d.set k w :=
  eq_of_entries put_put

section Map

variable {γ : Type*} {f : β → γ}

def map (f : β → γ) (d : Dict β) : Dict γ where
  entries := d.entries.map fun (k, v) => (k, f v)
  nodup   := by simpa [List.map_map, Function.comp_def] using d.nodup

theorem map_entries : (d.map f).entries = d.entries.map fun (k, v) => (k, f v) :=
  rfl

theorem lookup_map : (l.map fun (k, v) => (k, f v)).lookup j = (l.lookup j).map f := by
  induction l
  case nil => rfl
  case cons p l hi =>
    obtain ⟨i, v⟩ := p
    rw [List.map_cons, lookup_cons, lookup_cons, hi]
    split <;> rfl

@[simp]
theorem get?_map : (d.map f).get? k = (d.get? k).map f :=
  lookup_map

end Map

end Dict
