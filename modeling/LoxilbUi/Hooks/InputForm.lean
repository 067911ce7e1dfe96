import LoxilbUi.Library.JsValue
import LoxilbUi.Library.Run

-- The form of a dialog, in hooks/inputFormHook.ts: one mounted `useFormWithParams` that was given an
-- `onChange`, with its renders and effects and the writes of the inputs.

namespace InputForm

open JsValue

mutual

def mergeDefaultsUnder : JsValue → JsValue → JsValue
  | defaults,   undefined | defaults, null => defaults
  | object ds,  object current             => object <| mergeMembers ds ds [] current
  | _,          current                    => current

-- The loop over the keys of `current`, each of which it meets once.
def mergeMembers (ds merged : List (String × JsValue)) (seen : List String) :
    List (String × JsValue) → List (String × JsValue)
  | []                  => merged
  | (key, v) :: current =>
    if key ∈ seen then mergeMembers ds merged seen current
    else
      let v := mergeDefaultsUnder ((object ds).get key) v
      mergeMembers ds (Dict.put key v merged) (key :: seen) current

end

-- The members of a form. A form is never anything but an object.
abbrev Form :=
  List (String × JsValue)

-- What a render knows of the parameters: which object they are, the type of each field, and what
-- `getDefaultValueFromParams` makes of them.
structure Params where
  id       : Nat
  type     : String → Option String
  defaults : Form

structure Render where
  fetched : Bool
  params  : Params
  form    : Form

inductive Update
  | set (newForm : Form)
  | merge (defaults : Form)

def Update.apply : Update → Form → Form
  | set newForm,    _    => newForm
  | merge defaults, prev =>
    match mergeDefaultsUnder (object defaults) (object prev) with
    | object merged => merged
    | _             => prev

def Update.isSet : Update → Bool
  | set _   => true
  | merge _ => false

-- The form once every update of the queue is processed.
def upcoming (form : Form) (queue : List Update) : Form :=
  queue.foldl (fun form u => u.apply form) form

-- A call of `handleChange(field)(value)`, where a field is a name or a number, or of `handleObjectChange(partialData)`.
inductive Change
  | field (key : String) (value : JsValue)
  | index (key : JsNumber) (value : JsValue)
  | object (partialData : List (String × JsValue))

def Change.fields : Change → List String
  | .field key _        => [key]
  | .index key _        => [key.toText]
  | .object partialData => partialData.map Prod.fst

-- The fields that a change writes, with the values it writes to them. `number` is `Number(value)`.
def Change.entries (number : JsValue → JsNumber) (params : Params) : Change → List (String × JsValue)
  | .field key value    =>
    let processedValue := if params.type key = some "integer" then .number (number value) else value
    [(key, processedValue)]
  | .index key value    => [(key.toText, .number <| number value)]
  | .object partialData => partialData

-- `earlier` are the renders before the latest one, the last of them first. The effects of the latest
-- render have not run while `due`; `changed` tells that its form is not the form of the render before.
-- `merged` holds the dependencies that the effect of the defaults had when it last ran, and `payload`
-- the last form that was passed to `onChange`. Two fields only record the past: `written` the last
-- value written to each field, and `overtaken` that the mirror was last assigned by its effect, at a
-- moment when a write was still waiting in the queue.
structure Hook where
  latest    : Render
  earlier   : List Render
  due       : Bool
  changed   : Bool
  merged    : Option (Bool × Nat)
  queue     : List Update
  mergedRef : Option Form
  payload   : Option Form
  written   : List (String × JsValue)
  overtaken : Bool

-- `write` calls a handler that the render `r` renders before the latest one returned. The effects of
-- child components write before the effects of the hook run, those of its parents write after them.
inductive Event
  | write (r : Nat) (c : Change)
  | render (fetched : Bool) (params : Params)
  | effects

namespace Hook

def mount (fetched : Bool) (params : Params) : Hook where
  latest    := { fetched, params, form := params.defaults }
  earlier   := []
  due       := true
  changed   := true
  merged    := none
  queue     := []
  mergedRef := none
  payload   := none
  written   := []
  overtaken := false

-- The body that the two handlers share, with the form of the render that made them.
def apply (h : Hook) (form : Form) (entries : List (String × JsValue)) : Hook :=
  let newForm := assign (h.mergedRef.getD form) entries
  { h with
    mergedRef := some newForm
    queue     := h.queue ++ [.set newForm]
    payload   := some newForm
    overtaken := false }

-- Before the metadata is fetched, the handlers that a render returns do nothing.
def write (number : JsValue → JsNumber) (h : Hook) (c : Change) (r : Render) : Hook :=
  let entries := c.entries number r.params
  let h := { h with written := assign h.written entries }
  if r.fetched then h.apply r.form entries else h

def render (h : Hook) (fetched : Bool) (params : Params) : Hook :=
  { h with
    latest  := { fetched, params, form := upcoming h.latest.form h.queue }
    earlier := h.latest :: h.earlier
    due     := true
    changed := !h.queue.isEmpty
    queue   := [] }

def deps (h : Hook) : Bool × Nat :=
  (h.latest.fetched, h.latest.params.id)

def defaultsEffect (h : Hook) : Hook :=
  if h.merged = some h.deps then h
  else
    let h := { h with merged := some h.deps }
    if h.latest.fetched then { h with queue := h.queue ++ [.merge h.latest.params.defaults] } else h

def mirrorEffect (h : Hook) : Hook :=
  if h.changed then
    { h with mergedRef := some h.latest.form, overtaken := h.queue.any (·.isSet) }
  else h

def step (number : JsValue → JsNumber) (h : Hook) : Event → Option Hook
  | .write r c             => ((h.latest :: h.earlier)[r]?).map (h.write number c)
  | .render fetched params => if h.due then none else some <| h.render fetched params
  | .effects               =>
    if h.due then some { h with due := false }.defaultsEffect.mirrorEffect else none

-- The state has settled: every effect has run and every update is rendered.
def Settled (h : Hook) : Prop :=
  h.due = false ∧ h.queue = []

end Hook

abbrev Reaches (number : JsValue → JsNumber) (h₀ : Hook) (es : List Event) (h : Hook) : Prop :=
  Run (Hook.step number) h₀ es h

-- The form holds the last value that was written to each field.
def Carries (written : List (String × JsValue)) (form : Form) : Prop :=
  ∀ field v, written.lookup field = some v → Same ((object form).get field) v

-- Every field that was written holds its last value, in the form and in the last payload.
def Kept (h : Hook) : Prop :=
  Carries h.written h.latest.form ∧ (h.written ≠ [] → ∃ p, h.payload = some p ∧ Carries h.written p)

-- A default fills a gap of the value: something in it is undefined or null, and the default is not.
inductive Fills : JsValue → JsValue → Prop
  | gap {d v : JsValue} : v.isNil = true → d ≠ v → Fills d v
  | member {ds ms : List (String × JsValue)} (key : String) :
    Fills ((object ds).get key) ((object ms).get key) → Fills (object ds) (object ms)

-- The defaults effect is about to lay defaults under the form.
def Merges (h : Hook) : Prop :=
  h.merged ≠ some h.deps ∧ h.latest.fetched = true

-- A write goes through a render that had the metadata. If the mirror was overtaken, it still holds
-- what was written to the other fields. Defaults are laid under values without gaps.
def InStep (h : Hook) : Event → Prop
  | .write r c  =>
    (∀ render, (h.latest :: h.earlier)[r]? = some render → render.fetched = true) ∧
    (h.overtaken = true → ∀ field v, h.written.lookup field = some v → field ∉ c.fields →
      ∃ m, h.mergedRef = some m ∧ Same ((object m).get field) v)
  | .effects    => Merges h → ∀ field v, h.written.lookup field = some v →
    ¬Fills ((object h.latest.params.defaults).get field) v
  | .render ..  => True

end InputForm
