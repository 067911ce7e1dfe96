import LoxilbUi.Library.Dict

-- Plain objects of the language that are read as tables: a key that is not one of its own is looked up
-- among the members that every object inherits.

namespace PlainObject

variable {β : Type*} {d : Dict β} {key : String} {b : β}

-- The members of `Object.prototype`.
def members : List String := [
  "constructor", "hasOwnProperty", "isPrototypeOf", "propertyIsEnumerable", "toLocaleString", "toString",
  "valueOf", "__proto__", "__defineGetter__", "__defineSetter__", "__lookupGetter__", "__lookupSetter__"]

inductive Read (β : Type*)
  | absent
  | own (b : β)
  | inherited (member : String)
  deriving DecidableEq

def read (d : Dict β) (key : String) : Read β :=
  match d.get? key with
  | some b => .own b
  | none   => if key ∈ members then .inherited key else .absent

theorem read_eq_own_iff : read d key = .own b ↔ d.get? key = some b := by
  rw [read]
  split
  case h_1 b' h => rw [h, Read.own.injEq, Option.some.injEq]
  case h_2 h    =>
    rw [h]
    split <;> simp

-- Of no own key only the inherited names are there.
theorem read_of_get?_none (h : d.get? key = none) :
    read d key = if key ∈ members then .inherited key else .absent := by
  simp only [read, h]

-- `o[key] = b` of a `b` that is no object: the setter of `__proto__` ignores it.
def assign (d : Dict β) (key : String) (b : β) : Dict β :=
  if key = "__proto__" then d else d.set key b

theorem get?_assign {key' : String} : (assign d key b).get? key' =
    if key' = key ∧ key ≠ "__proto__" then some b else d.get? key' := by
  rw [assign]
  by_cases hp : key = "__proto__"
  · simp [hp]
  · simp [hp]

end PlainObject
