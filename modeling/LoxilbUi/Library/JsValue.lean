import LoxilbUi.Library.Dict
import LoxilbUi.Library.JsNumber

-- Values of the language, as far as JSON and an object literal can make them. The members of an
-- object stand in the order they were set; of two with one key the first would count.

inductive JsValue
  | undefined
  | null
  | bool (b : Bool)
  | number (n : JsNumber)
  | string (s : String)
  | array (items : List JsValue)
  | object (members : List (String × JsValue))

-- A record that is built and changed by the code; no key stands in it twice.
abbrev JsObject :=
  Dict JsValue

-- `object[key]`
def JsObject.get (object : JsObject) (key : String) : JsValue :=
  (object.get? key).getD .undefined

namespace JsObject

-- `delete object[key]` of each key.
def delete (object : JsObject) (keys : List String) : JsObject :=
  object.without keys

@[simp]
theorem get_set {object : JsObject} {key k : String} {v : JsValue} :
    JsObject.get (object.set key v) k = if k = key then v else object.get k := by
  simp only [JsObject.get, Dict.get?_set]
  split <;> rfl

@[simp]
theorem get_delete {object : JsObject} {keys : List String} {k : String} :
    (object.delete keys).get k = if k ∈ keys then .undefined else object.get k := by
  simp only [JsObject.get, delete, Dict.get?_without]
  split <;> rfl

@[simp]
theorem get?_delete {object : JsObject} {keys : List String} {k : String} :
    (object.delete keys).get? k = if k ∈ keys then none else object.get? k :=
  Dict.get?_without

theorem get_of_get? {object : JsObject} {k : String} {v : JsValue} (h : object.get? k = some v) :
    object.get k = v := by
  rw [JsObject.get, h, Option.getD_some]

theorem delete_eq_self {object : JsObject} {keys : List String}
    (h : ∀ k ∈ keys, object.get? k = none) : object.delete keys = object :=
  Dict.without_eq_self h

end JsObject

namespace JsValue

-- `value?.[key]`, of what a value holds itself.
def get (key : String) : JsValue → JsValue
  | object ms   => (ms.lookup key).getD undefined
  | array items =>
    if key = "length" then number <| .finite <| .ofInt items.length
    else ((items.zipIdx.find? fun p => p.2.repr = key).map Prod.fst).getD undefined
  | _ => undefined

-- `key in value`, of what a value holds itself.
def has (key : String) : JsValue → Bool
  | object ms   => (ms.lookup key).isSome
  | array items => key = "length" || items.zipIdx.any fun p => p.2.repr = key
  | _           => false

-- `===`. Two arrays or objects of different origin are never the same one.
def strictEq : JsValue → JsValue → Bool
  | undefined, undefined => true
  | null, null           => true
  | bool a, bool b       => a = b
  | number a, number b   => a.strictEq b
  | string a, string b   => a = b
  | _, _                 => false

-- The equality of `includes`.
def sameValueZero (v w : JsValue) : Bool :=
  match v, w with
  | number .nan, number .nan => true
  | _, _                     => v.strictEq w

-- `value === undefined || value === null`
def isNil : JsValue → Bool
  | undefined | null => true
  | _                => false

-- `value ?? other`
def orElse (v other : JsValue) : JsValue :=
  if v.isNil then other else v

-- Whether `if (value)` takes its branch.
def truthy : JsValue → Bool
  | undefined | null  => false
  | bool b            => b
  | number .nan       => false
  | number n          => n ≠ 0
  | string s          => s ≠ ""
  | array _ | object _ => true

mutual

-- `String(value)`
def toText : JsValue → String
  | undefined => "undefined"
  | null      => "null"
  | bool b    => if b then "true" else "false"
  | number n  => n.toText
  | string s  => s
  | array vs  => ",".intercalate (itemTexts vs)
  | object _  => "[object Object]"

def itemTexts : List JsValue → List String
  | []                             => []
  | undefined :: vs | null :: vs   => "" :: itemTexts vs
  | v :: vs                        => v.toText :: itemTexts vs

end

theorem get?_of_get {object : JsObject} {key : String} (h : object.get key ≠ undefined) :
    object.get? key = some (object.get key) := by
  simp only [JsObject.get] at h ⊢
  generalize object.get? key = o at h
  cases o
  case none   => contradiction
  case some v => rfl

variable {v w : JsValue} {ms : List (String × JsValue)} {key : String}

theorem strictEq_inv (h : v.strictEq w = true) : v = w := by
  cases v <;> cases w <;> simp_all [strictEq]
  case number.number a b => cases a <;> simp_all [JsNumber.strictEq]

theorem eq_of_sameValueZero (h : v.sameValueZero w = true) : v = w := by
  unfold sameValueZero at h
  split at h
  · rfl
  · exact strictEq_inv h

theorem strictEq_comm : v.strictEq w = w.strictEq v := by
  cases v <;> cases w <;> simp [strictEq, JsNumber.strictEq_comm, eq_comm]

theorem strictEq_self (h : v.strictEq w = true) : v.strictEq v = true := by
  obtain rfl := strictEq_inv h
  exact h

theorem object_get_of_mem (hn : (ms.map Prod.fst).Nodup) (h : (key, v) ∈ ms) :
    (object ms).get key = v := by
  have h := Dict.get?_eq_some_iff (d := ⟨ms, hn⟩) |>.mpr h
  simp only [Dict.get?] at h
  simp [get, h]

theorem object_get_mem : (key, (object ms).get key) ∈ ms ∨ (object ms).get key = undefined := by
  cases h : ms.lookup key
  case none => exact .inr <| by simp [get, h]
  case some v => exact .inl <| by simpa [get, h] using Dict.mem_of_lookup h

section Same

-- `value?.[key₁]?.[key₂]…`
def look (v : JsValue) (path : List String) : JsValue :=
  path.foldl (fun v key => v.get key) v

-- A value without members of its own that could be compared one by one.
def flat : JsValue → Option JsValue
  | object _ => none
  | v        => some v

-- The values read alike at every path, whatever the order in which their members were set.
def Same (v w : JsValue) : Prop :=
  ∀ path, (v.look path).flat = (w.look path).flat

theorem Same.refl : Same v v :=
  fun _ => rfl

theorem Same.trans {u : JsValue} (h : Same u v) (h' : Same v w) : Same u w :=
  fun path => (h path).trans (h' path)

theorem Same.get (h : Same v w) : Same (v.get key) (w.get key) :=
  fun path => h (key :: path)

theorem Same.flat_eq (h : Same v w) : v.flat = w.flat :=
  h []

theorem flat_eq_none (h : v.flat = none) : ∃ ms, v = object ms := by
  cases v <;> simp only [flat, reduceCtorEq] at h
  exact ⟨_, rfl⟩

theorem flat_eq_some (h : v.flat = some w) : v = w := by
  cases v <;> simp only [flat, reduceCtorEq, Option.some.injEq] at h <;> exact h

theorem flat_of_isNil (h : v.isNil = true) : v.flat = some v := by
  cases v <;> simp_all [isNil, flat]

end Same

-- `{...object, ...entries}`, on the members of an object.
def assign (ms entries : List (String × JsValue)) : List (String × JsValue) :=
  entries.foldl (fun ms e => Dict.put e.1 e.2 ms) ms

theorem lookup_assign {entries : List (String × JsValue)} :
    (assign ms entries).lookup key = (entries.reverse.lookup key).or (ms.lookup key) := by
  induction entries using List.reverseRecOn
  case nil => simp [assign]
  case append_singleton entries e hi =>
    obtain ⟨k, u⟩ := e
    rw [assign, List.foldl_concat, Dict.lookup_put, List.reverse_concat, Dict.lookup_cons]
    split
    case isTrue  => rfl
    case isFalse => exact hi

end JsValue
