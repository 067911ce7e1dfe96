import LoxilbUi.Library.JsJson

-- hooks/localStorageHook.ts and preferences.ts: a preference that is kept in the local storage, and that
-- every component which asks for it holds a copy of. The components of a tab tell one another by the event
-- bus, the tabs by the events of the storage.

namespace LocalStorage

-- A call of `useLocalStorageState`, without its key.
structure Preference where
  defaultValue : JsValue
  isValid      : Option (JsValue → Bool)

section Preferences

def isTableDensity (value : JsValue) : Bool :=
  value.strictEq (.string "comfortable") || value.strictEq (.string "compact")

def isStringPreference : JsValue → Bool
  | .string _ => true
  | _         => false

def isBooleanPreference : JsValue → Bool
  | .bool _ => true
  | _       => false

def observabilityCadenceOptionsMs : List JsNumber :=
  [5000, 10000, 30000, 60000]

def isObservabilityCadence : JsValue → Bool
  | .number n => n ∈ observabilityCadenceOptionsMs
  | _         => false

def tableDensity : Preference where
  defaultValue := .string "comfortable"
  isValid      := isTableDensity

def sideMenuOpen : Preference where
  defaultValue := .bool true
  isValid      := isBooleanPreference

def observabilityCadence : Preference where
  defaultValue := .number 10000
  isValid      := isObservabilityCadence

def systemAuditInstance : Preference where
  defaultValue := .string ""
  isValid      := isStringPreference

end Preferences

-- `JSON.parse`, which throws where it is `none`.
variable (parse : String → Option JsValue) (pref : Preference)

-- `none` is a stored value that is not trusted.
def coerceStored (raw : String) : Option JsValue :=
  match parse raw, pref.isValid with
  | none, none                => match pref.defaultValue with
    | .string _ => some <| .string raw
    | _         => none
  | none, some isValid        => if isValid <| .string raw then some <| .string raw else none
  | some parsed, none         => some parsed
  | some parsed, some isValid => if isValid parsed then some parsed else none

def readStored (storedValue : Option String) : JsValue :=
  match storedValue with
  | none     => pref.defaultValue
  | some raw => (coerceStored parse pref raw).getD pref.defaultValue

-- What `setItem` makes of `JSON.stringify(state)`.
def textOf (state : JsValue) : String :=
  state.stringify.getD "undefined"

-- `Object.is`; an object is taken for another one each time.
def objectIs : JsValue → JsValue → Bool
  | .number a, .number b => a = b
  | a, b                 => a.strictEq b

-- A component that is mounted.
structure Consumer where
  tab       : Nat
  -- What it was rendered with last.
  state     : JsValue
  -- The updates that wait for its next render.
  queue     : List (JsValue → JsValue)
  -- Its effects have not run since that render.
  due       : Bool
  -- The state that its listeners were made with.
  listening : Option JsValue

structure World where
  stored    : Option String
  -- The events of the storage that a tab has not handled.
  inbox     : Nat → List (Option String)
  consumers : Nat → Option Consumer

namespace Consumer

def setState (c : Consumer) (update : JsValue → JsValue) : Consumer :=
  { c with queue := c.queue ++ [update] }

-- The state that the updates which wait lead to.
def result (c : Consumer) : JsValue :=
  c.queue.foldl (fun state update => update state) c.state

def render (c : Consumer) : Consumer :=
  { c with
    state := c.result
    queue := []
    due   := c.due || !objectIs c.result c.state }

-- The listener of the event bus.
def hear (c : Consumer) (value : JsValue) : Consumer :=
  match c.listening with
  | some state => if value.stringify ≠ state.stringify then c.setState fun _ => value else c
  | none       => c

def handleStorageChange (c : Consumer) (newValue : Option String) : Consumer :=
  match c.listening, newValue.bind (coerceStored parse pref) with
  | some _, some value => c.setState fun _ => value
  | _, _               => c

end Consumer

namespace World

def initial (stored : Option String) : World where
  stored    := stored
  inbox     := fun _ => []
  consumers := fun _ => none

def put (w : World) (id : Nat) (c : Option Consumer) : World :=
  { w with consumers := fun i => if i = id then c else w.consumers i }

-- What happens to each component of a tab.
def mapTab (w : World) (tab : Nat) (f : Consumer → Consumer) : World :=
  { w with consumers := fun i => (w.consumers i).map fun c => if c.tab = tab then f c else c }

-- The other tabs are told of a change.
def setItem (w : World) (tab : Nat) (value : Option String) : World :=
  if w.stored = value then w
  else { w with
    stored := value
    inbox  := fun t => if t = tab then w.inbox t else w.inbox t ++ [value] }

def emit (w : World) (tab : Nat) (value : JsValue) : World :=
  w.mapTab tab (·.hear value)

-- The two effects of a component, the second of which listens.
def runEffects (w : World) (id : Nat) : World :=
  match w.consumers id with
  | none   => w
  | some c =>
    let w := (w.setItem c.tab <| some <| textOf c.state).emit c.tab c.state
    w.put id <| (w.consumers id).map fun c => { c with
      due       := false
      listening := some c.state }

def cleanUp (w : World) (id : Nat) : World :=
  w.put id <| (w.consumers id).map fun c => { c with listening := none }

-- Those whose effects are due stop to listen, all of them, and then the effects run.
def flush (w : World) (ids : List Nat) : World :=
  ids.foldl runEffects <| ids.foldl cleanUp w

end World

inductive Event
  -- A page loads in a tab, in the place of the one before.
  | loaded (tab : Nat)
  | mounted (id tab : Nat)
  | unmounted (id : Nat)
  | set (id : Nat) (update : JsValue → JsValue)
  | rendered (id : Nat)
  | flushed (tab : Nat) (ids : List Nat)
  -- The next event of the storage comes to a tab.
  | handled (tab : Nat)
  -- Something else in a tab writes to the storage, or takes the key from it.
  | foreign (tab : Nat) (value : Option String)

-- A step that cannot be taken is `none`.
def step (w : World) : Event → Option World
  | .loaded tab    => some {
    stored    := w.stored
    inbox     := fun t => if t = tab then [] else w.inbox t
    consumers := fun id => (w.consumers id).filter (·.tab ≠ tab) }
  | .mounted id tab =>
    match w.consumers id with
    | some _ => none
    | none   => some <| w.put id <| some {
      tab       := tab
      state     := readStored parse pref w.stored
      queue     := []
      due       := true
      listening := none }
  | .unmounted id  => (w.consumers id).map fun _ => w.put id none
  | .set id update => (w.consumers id).map fun c => w.put id <| some <| c.setState update
  | .rendered id   => (w.consumers id).map fun c => w.put id <| some c.render
  | .flushed tab ids =>
    if ids.Nodup ∧ ∀ id ∈ ids, (w.consumers id).any (fun c => c.tab = tab && c.due) then some <| w.flush ids else none
  | .handled tab =>
    match w.inbox tab with
    | []            => none
    | newValue :: l => some <|
      { w with inbox := fun t => if t = tab then l else w.inbox t }.mapTab tab (·.handleStorageChange parse pref newValue)
  | .foreign tab value => some <| w.setItem tab value

end LocalStorage
