import LoxilbUi.Observability.FlatSums
import Mathlib.Algebra.BigOperators.Group.List.Basic
import Mathlib.Data.List.Induction

-- What stands under each name once the values of a list of samples have been accumulated.

namespace Observability

variable {samples samples' : List MetricSample} {s : MetricSample} {name : String} {flat : Dict Flat} {q : ℚ}

def Value.finite? : Value → Option ℚ
  | .finite q => some q
  | _         => none

-- The finite values of the samples with a name.
def partsNamed (samples : List MetricSample) (name : String) : List ℚ :=
  (samples.filter (·.name = name)).filterMap (·.value.finite?)

theorem partsNamed_concat : partsNamed (samples ++ [s]) name =
    partsNamed samples name ++ if s.name = name then s.value.finite?.toList else [] := by
  rw [partsNamed, List.filter_append, List.filterMap_append, ← partsNamed, List.filter_singleton]
  by_cases hn : s.name = name
  · cases hv : s.value.finite? <;> simp [hn, hv]
  · simp [hn]

theorem partsNamed_eq_nil_iff : partsNamed samples name = [] ↔ ∀ s ∈ samples, s.name = name → s.value.finite? = none := by
  simp [partsNamed, List.filterMap_eq_nil_iff]

def accumulated (samples : List MetricSample) : Dict Flat :=
  samples.foldl (fun flat s => accumulate flat s.name s.value) .empty

-- The sum of the values, taken in their order.
def flatSum (parts : List ℚ) : Value :=
  parts.foldl (fun sum q => sum.add (.finite q)) (.finite 0)

theorem flatSum_concat {parts : List ℚ} : flatSum (parts ++ [q]) = (flatSum parts).add (.finite q) :=
  List.foldl_concat ..

-- No addition rounds.
def Unrounded (parts : List ℚ) : Prop :=
  ∀ ps, ps <+: parts → JsNumber.nearestDouble ps.sum = some ps.sum

theorem flatSum_of_unrounded {parts : List ℚ} (h : Unrounded parts) : flatSum parts = .finite parts.sum := by
  induction parts using List.reverseRecOn
  case nil => rfl
  case append_singleton parts q hi =>
    have hp := hi fun ps hps => h ps <| hps.trans <| List.prefix_append ..
    have hs := h _ List.prefix_rfl
    rw [List.sum_append, List.sum_singleton] at hs ⊢
    rw [flatSum_concat, hp, Value.add, Value.ofRat, hs]

-- What stands under a name whose finite values are `parts`, if the table had no inherited members.
def totalOf (parts : List ℚ) : Option Flat :=
  if parts = [] then none else some <| .sum (flatSum parts)

def flatOf (name : String) (parts : List ℚ) : Option Flat :=
  if parts = [] || name = "__proto__" then none
  else if name ∈ PlainObject.members then some <| .text name parts
  else some <| .sum (flatSum parts)

-- One more value for a name.
theorem flatOf_concat {parts : List ℚ} (hp : name ≠ "__proto__") (h : flat.get? name = flatOf name parts) :
    flatOf name (parts ++ [q]) = some (plus (PlainObject.read flat name) q) := by
  have hn : flatOf name (parts ++ [q]) = if name ∈ PlainObject.members then some (.text name (parts ++ [q]))
      else some (.sum <| flatSum (parts ++ [q])) := by simp [flatOf, hp]
  rw [hn]
  by_cases hl : parts = []
  · have hg : flat.get? name = none := by simp [h, flatOf, hl]
    rw [PlainObject.read_of_get?_none hg, hl]
    split <;> simp [plus, flatSum]
  · have hg : flat.get? name = if name ∈ PlainObject.members then some (.text name parts)
        else some (.sum <| flatSum parts) := by simp [h, flatOf, hl, hp]
    split at hg
    case isTrue hm  => rw [PlainObject.read_eq_own_iff.mpr hg, if_pos hm, plus]
    case isFalse hm => simp [PlainObject.read_eq_own_iff.mpr hg, hm, plus, flatSum_concat]

theorem accumulate_of_none {v : Value} (h : v.finite? = none) : accumulate flat name v = flat := by
  cases v
  case finite q => cases h
  all_goals rfl

theorem accumulate_of_some {v : Value} (h : v.finite? = some q) :
    accumulate flat name v = PlainObject.assign flat name (plus (PlainObject.read flat name) q) := by
  cases v
  case finite q' => exact Option.some.inj h ▸ rfl
  all_goals cases h

theorem get?_accumulated : (accumulated samples).get? name = flatOf name (partsNamed samples name) := by
  rw [accumulated]
  induction samples using List.reverseRecOn
  case nil => rfl
  case append_singleton samples s hi =>
    rw [List.foldl_concat, partsNamed_concat]
    cases hv : s.value.finite?
    case none   => rw [accumulate_of_none hv, hi, Option.toList_none, ite_self, List.append_nil]
    case some q =>
      rw [accumulate_of_some hv, PlainObject.get?_assign, Option.toList_some]
      by_cases hn : s.name = name
      · subst hn
        by_cases hp : s.name = "__proto__"
        · rw [if_neg fun h => h.2 hp, hi]
          simp [hp, flatOf]
        · rw [if_pos ⟨rfl, hp⟩, if_pos rfl, flatOf_concat hp hi]
      · rw [if_neg fun h => hn h.1.symm, if_neg hn, List.append_nil, hi]

-- Each name has the sum of its finite samples, and none without one. The sum is that of doubles, in the
-- order of the samples, and so the exact one where no addition rounds.
structure SumsExactly (samples : List MetricSample) (flat : Dict Flat) : Prop where
  total : ∀ name, flat.get? name = totalOf (partsNamed samples name)
  exact : ∀ name, partsNamed samples name ≠ [] → Unrounded (partsNamed samples name) →
    flat.get? name = some (.sum <| .finite (partsNamed samples name).sum)

theorem sumsExactly_iff :
    SumsExactly samples flat ↔ ∀ name, flat.get? name = totalOf (partsNamed samples name) := by
  refine ⟨SumsExactly.total, fun h => ⟨h, fun name hn hu => ?_⟩⟩
  rw [h, totalOf, if_neg hn, flatSum_of_unrounded hu]

-- No finite sample has the name of a member that every object inherits.
def NoInherited (samples : List MetricSample) : Prop :=
  ∀ s ∈ samples, s.value.isFinite = true → s.name ∉ PlainObject.members

theorem noInherited_iff : NoInherited samples ↔ ∀ name ∈ PlainObject.members, partsNamed samples name = [] := by
  simp only [NoInherited, partsNamed_eq_nil_iff]
  constructor
  case mp =>
    rintro h _ hm s hs rfl
    cases hv : s.value
    case finite q => exact absurd hm <| h s hs <| by rw [hv, Value.isFinite]
    all_goals rfl
  case mpr =>
    intro h s hs hf hm
    have hn := h s.name hm s hs rfl
    cases hv : s.value <;> simp [hv, Value.isFinite, Value.finite?] at hf hn

theorem flatOf_eq_iff {parts : List ℚ} : flatOf name parts = totalOf parts ↔
    (name ∈ PlainObject.members → parts = []) := by
  by_cases hl : parts = []
  · simp [hl, flatOf, totalOf]
  · by_cases hp : name = "__proto__"
    · simp [hl, hp, flatOf, totalOf, PlainObject.members]
    · by_cases hm : name ∈ PlainObject.members <;> simp [hl, hp, hm, flatOf, totalOf]

theorem sumsExactly_accumulated_iff : SumsExactly samples (accumulated samples) ↔ NoInherited samples := by
  rw [sumsExactly_iff, noInherited_iff]
  refine forall_congr' fun name => ?_
  rw [get?_accumulated, flatOf_eq_iff]

-- The same samples of each name, in the same order.
def SameByName (samples samples' : List MetricSample) : Prop :=
  ∀ name, samples.filter (·.name = name) = samples'.filter (·.name = name)

theorem SameByName.mem_iff (h : SameByName samples samples') : s ∈ samples ↔ s ∈ samples' := by
  have hs (l : List MetricSample) : s ∈ l ↔ s ∈ l.filter (·.name = s.name) := by simp
  rw [hs samples, hs samples', h]

theorem sumsExactly_congr (h : SameByName samples samples') :
    SumsExactly samples flat ↔ SumsExactly samples' flat := by
  simp only [sumsExactly_iff, partsNamed, h _]

def samplesOf (snapshot : MetricsSnapshot) : List MetricSample :=
  snapshot.families.entries.flatMap fun (_, family) => family.samples

theorem projectFlatSums_eq {snapshot : MetricsSnapshot} :
    projectFlatSums snapshot = accumulated (samplesOf snapshot) := by
  rw [projectFlatSums, accumulated, samplesOf, List.foldl_flatMap]

end Observability
