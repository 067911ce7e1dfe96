import LoxilbUi.Library.Json

-- JSON merge-patch: a patch replaces what it names, goes into objects, and takes out what it names
-- with a null.

namespace Json

-- No name stands twice in an object of the document.
inductive Proper : Json → Prop
  | null : Proper .null
  | bool (b : Bool) : Proper (.bool b)
  | number (d : Decimal) : Proper (.number d)
  | string (s : String) : Proper (.string s)
  | array {js : List Json} (h : ∀ j ∈ js, Proper j) : Proper (.array js)
  | object {ms : List (String × Json)} (hn : (ms.map Prod.fst).Nodup) (h : ∀ m ∈ ms, Proper m.2) :
    Proper (.object ms)

def members : Json → List (String × Json)
  | object ms => ms
  | _         => []

def without (key : String) (ms : List (String × Json)) : List (String × Json) :=
  ms.filter (·.1 ≠ key)

mutual

def mergePatch (target : Json) : Json → Json
  | object ms => .object <| mergeMembers target.members ms
  | patch     => patch

def mergeMembers (target : List (String × Json)) : List (String × Json) → List (String × Json)
  | []                => target
  | (key, null) :: ms => mergeMembers (without key target) ms
  | (key, j) :: ms    =>
    mergeMembers (Dict.put key (mergePatch ((target.lookup key).getD null) j) target) ms

end

variable {target : Json} {ts ms : List (String × Json)} {key k : String} {j : Json}

theorem Proper.nodup_members (h : target.Proper) : (target.members.map Prod.fst).Nodup := by
  cases h
  case object hn _ => exact hn
  all_goals exact List.nodup_nil

theorem Proper.lookup (h : target.Proper) (hl : target.members.lookup key = some j) : j.Proper := by
  cases h
  case object hm => exact hm _ <| Dict.mem_of_lookup hl
  all_goals contradiction

theorem lookup_without : (without k ts).lookup key = if key = k then none else ts.lookup key := by
  rw [without, Dict.lookup_filter (p := fun i => decide (i ≠ k))]
  by_cases h : key = k <;> simp [h]

theorem nodup_without (h : (ts.map Prod.fst).Nodup) : ((without k ts).map Prod.fst).Nodup :=
  h.sublist <| List.filter_sublist.map _

theorem mergeMembers_cons (h : j ≠ null) : mergeMembers ts ((key, j) :: ms) =
    mergeMembers (Dict.put key (mergePatch ((ts.lookup key).getD null) j) ts) ms := by
  rw [mergeMembers]
  exact h

-- What a patch that names nothing twice leaves under a name.
theorem lookup_mergeMembers (hn : (ms.map Prod.fst).Nodup) :
    (mergeMembers ts ms).lookup key =
      match ms.lookup key with
      | none       => ts.lookup key
      | some .null => none
      | some j     => some <| mergePatch ((ts.lookup key).getD .null) j := by
  induction ms generalizing ts
  case nil => rfl
  case cons m ms hi =>
    obtain ⟨k, j⟩ := m
    obtain ⟨hk, hms⟩ := List.nodup_cons.mp hn
    have hm : ms.lookup k = none := Dict.lookup_eq_none hk
    rw [Dict.lookup_cons]
    by_cases hj : j = null
    · subst hj
      rw [mergeMembers, hi hms, lookup_without]
      by_cases h : key = k
      · subst h
        simp [hm]
      · simp [h]
    · rw [mergeMembers_cons hj, hi hms, Dict.lookup_put]
      by_cases h : key = k
      · subst h
        simp [hm]
      · simp [h]

theorem nodup_mergeMembers (h : (ts.map Prod.fst).Nodup) :
    ((mergeMembers ts ms).map Prod.fst).Nodup := by
  induction ms generalizing ts
  case nil => exact h
  case cons m ms hi =>
    obtain ⟨k, j⟩ := m
    by_cases hj : j = null
    · subst hj
      rw [mergeMembers]
      exact hi <| nodup_without h
    · rw [mergeMembers_cons hj]
      exact hi <| Dict.nodup_put h

end Json

-- A document that is an object.
structure JsonObject where
  members : List (String × Json)
  proper  : (Json.object members).Proper

-- What the language reads of it.
def JsonObject.value (object : JsonObject) : JsObject where
  entries := JsValue.ofJsonMembers object.members
  nodup   := JsValue.ofJsonMembers_keys ▸ object.proper.nodup_members
