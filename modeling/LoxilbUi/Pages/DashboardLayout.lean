import LoxilbUi.Library.JsValue

-- pages/dashboardLayout.ts: the saved layout of a dashboard against the cards that it can show now.
-- Coordinates are added exactly.

namespace Dashboard

def isFiniteNumber : JsValue → Bool
  | .number (.finite _) => true
  | _                   => false

def isText : JsValue → Bool
  | .string _ => true
  | _         => false

-- `!!o && typeof o === 'object'`
def isObject : JsValue → Bool
  | .array _ | .object _ => true
  | _                    => false

def isLayoutItem (v : JsValue) : Bool :=
  isObject v && isText (v.get "i") && ["x", "y", "w", "h"].all fun key => isFiniteNumber (v.get key)

structure Layout where
  members    : List (String × JsValue)
  wellFormed : isLayoutItem (.object members) = true

namespace Layout

def value (l : Layout) : JsValue :=
  .object l.members

def i (l : Layout) : String :=
  match l.value.get "i" with
  | .string key => key
  | _           => ""

def number (l : Layout) (key : String) : Decimal :=
  match l.value.get key with
  | .number (.finite d) => d
  | _                   => .ofInt 0

def x (l : Layout) : Decimal :=
  l.number "x"

def y (l : Layout) : Decimal :=
  l.number "y"

def w (l : Layout) : Decimal :=
  l.number "w"

def h (l : Layout) : Decimal :=
  l.number "h"

-- An array has no text under `i`: its places are numbers.
def ofValue? : JsValue → Option Layout
  | .object ms => if h : isLayoutItem (.object ms) = true then some ⟨ms, h⟩ else none
  | _          => none

theorem isLayoutItem_put {ms : List (String × JsValue)} (h : isLayoutItem (.object ms) = true)
    (y : Decimal) : isLayoutItem (.object <| Dict.put "y" (.number <| .finite y) ms) = true := by
  simp only [isLayoutItem, isObject, JsValue.get, Dict.lookup_put] at h ⊢
  simp_all [isFiniteNumber]

-- `{...d, y}`
def moveTo (d : Layout) (y : Decimal) : Layout where
  members    := Dict.put "y" (.number <| .finite y) d.members
  wellFormed := isLayoutItem_put d.wellFormed y

end Layout

@[ext]
structure ReconcileResult where
  layout  : List Layout
  changed : Bool

structure Pass where
  seen    : List String
  kept    : List Layout
  dropped : Bool

def keepItem (wanted : List String) (pass : Pass) (item : JsValue) : Pass :=
  match Layout.ofValue? item with
  | none      => { pass with dropped := true }
  | some item =>
    if item.i ∉ wanted ∨ item.i ∈ pass.seen then { pass with dropped := true }
    else { pass with seen := item.i :: pass.seen, kept := pass.kept ++ [item] }

-- Each on a row of its own below all that is there.
def appendCard (acc : List Layout × Decimal) (d : Layout) : List Layout × Decimal :=
  (acc.1 ++ [d.moveTo acc.2], acc.2.add d.h)

def bottomOf (kept : List Layout) : Decimal :=
  kept.foldl (fun max item => max.max <| item.y.add item.h) (.ofInt 0)

def reconcileDashboardLayout (saved : JsValue) (defaults : List Layout) : ReconcileResult :=
  match saved with
  | .array items =>
    let pass := items.foldl (keepItem <| defaults.map Layout.i) ⟨[], [], false⟩
    if pass.kept.isEmpty then ⟨defaults, true⟩
    else
      let missing := defaults.filter fun d => d.i ∉ pass.seen
      let kept := (missing.foldl appendCard (pass.kept, bottomOf pass.kept)).1
      ⟨kept, pass.dropped || !missing.isEmpty⟩
  | _ => ⟨defaults, true⟩

end Dashboard
