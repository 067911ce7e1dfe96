import LoxilbUi.Hooks.Theorems.InputForm

-- What is laid under a record fills its gaps and nothing else, and laying it once more changes nothing.

namespace InputForm

open JsValue

section Paths

-- The member of a record; nothing else has members.
def member (key : String) : JsValue → JsValue
  | object ms => (object ms).get key
  | _         => undefined

variable {d c v : JsValue} {key : String} {path : List String} {ds ms : List (String × JsValue)}

end Paths

-- Members over other ones: those with a key that was met before are as they were, those with a new one hold anything,
-- and more may stand behind.
inductive Over : List String → List (String × JsValue) → List (String × JsValue) → Prop
  | behind {seen : List String} {ms : List (String × JsValue)} : (ms.map Prod.fst).Nodup →
    (∀ key ∈ ms.map Prod.fst, key ∉ seen) → Over seen [] ms
  | met {seen : List String} {key : String} {v : JsValue} {ds ms : List (String × JsValue)} : key ∈ seen →
    Over seen ds ms → Over seen ((key, v) :: ds) ((key, v) :: ms)
  | fresh {seen : List String} {key : String} {v w : JsValue} {ds ms : List (String × JsValue)} : key ∉ seen →
    Over (key :: seen) ds ms → Over seen ((key, v) :: ds) ((key, w) :: ms)

section Again

variable {d c v w : JsValue} {key : String} {ds ms cs base : List (String × JsValue)} {seen met : List String}

theorem Over.refl : Over seen ds ds := by
  induction ds generalizing seen
  case nil          => exact .behind .nil nofun
  case cons m ds hi =>
    obtain ⟨key, v⟩ := m
    by_cases h : key ∈ seen
    · exact .met h hi
    · exact .fresh h hi

theorem Over.put (h : Over seen ds ms) (hk : key ∉ seen) : Over seen ds (Dict.put key w ms) := by
  induction h
  case behind hn hs =>
    refine .behind (Dict.nodup_put hn) fun k hm => ?_
    obtain rfl | hm := Dict.mem_keys_put.mp hm
    · exact hk
    · exact hs k hm
  case met k v ds ms hm _ hi =>
    have hne : k ≠ key := fun he => hk <| he ▸ hm
    rw [Dict.put, if_neg hne]
    exact .met hm <| hi hk
  case fresh k v u ds ms hn ho hi =>
    rw [Dict.put]
    split
    case isTrue he  => exact he ▸ .fresh hn ho
    case isFalse he => exact .fresh hn <| hi <| by simp [hk, Ne.symm he]

-- What is laid over `base` at each new key is `v` again.
def Settled (base : List (String × JsValue)) (seen : List String) (ms : List (String × JsValue)) : Prop :=
  ∀ key v, key ∉ seen → ms.lookup key = some v → mergeDefaultsUnder ((object base).get key) v = v

theorem Settled.tail {seen' : List String} (h : Settled base seen ((key, v) :: ms)) (hs : ∀ k ∈ seen, k ∈ seen')
    (hk : key ∈ seen') : Settled base seen' ms := fun k u hn hl => by
  refine h k u (fun hm => hn <| hs k hm) ?_
  rw [Dict.lookup_cons, if_neg <| by rintro rfl; exact hn hk, hl]

theorem Settled.head (h : Settled base seen ((key, v) :: ms)) (hk : key ∉ seen) :
    mergeDefaultsUnder ((object base).get key) v = v :=
  h key v hk <| by rw [Dict.lookup_cons, if_pos rfl]

end Again

end InputForm
