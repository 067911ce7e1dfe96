import LoxilbUi.Library.Run
import Mathlib.Data.List.DropRight
import Mathlib.Data.List.ReduceOption
import Mathlib.Logic.Function.Basic

-- The series of an instance, in hooks/query/common.ts: one mounted `useGenericSeries` with the
-- effects, updaters and timers of its renders, and the stores it shares with later mounts.

namespace TimeSeries

def maxDurationMs : Int :=
  24 * 60 * 60 * 1000

def maxDataPoints : Nat :=
  100

structure Point (T : Type*) where
  timestamp : Int
  data      : T
  deriving DecidableEq

-- What localStorage holds under a key: a JSON array, whose malformed elements are `none`, or a text
-- that is no JSON array. A missing item and an empty text both read as `none`.
inductive Stored (T : Type*)
  | unusable
  | array (elements : List (Option (Point T)))

section Helpers

variable {T : Type*}

def pruneOld (now : Int) (arr : List (Point T)) : List (Point T) :=
  let timeFiltered := arr.filter fun item => now - item.timestamp ≤ maxDurationMs
  if timeFiltered.length > maxDataPoints then timeFiltered.rtake maxDataPoints else timeFiltered

-- The series that is read, and what is left in the storage.
def readStoredSeries (now : Int) : Option (Stored T) → List (Point T) × Option (Stored T)
  | none                   => ([], none)
  | some .unusable         => ([], none)
  | some (.array elements) => (pruneOld now elements.reduceOption, some (.array elements))

def appendSeries (now : Int) (prev : List (Point T)) (newPoint : Point T) : List (Point T) :=
  pruneOld now (prev ++ [newPoint])

end Helpers

-- A call of `setSeriesData`: with the updater of the append effect, which closed over the instance
-- and the answer of its render, or with a series.
inductive Update (Raw T : Type*)
  | append (id : Nat) (raw : Raw)
  | set (series : List (Point T))

-- By instance: the answer of the metrics query with its `dataUpdatedAt`, the cached series and the
-- stored one. `answers` keeps every answer that was ever fetched from the instance.
structure Stores (Raw T : Type*) where
  queries : Nat → Option (Raw × Int)
  cache   : Nat → Option (List (Point T))
  storage : Nat → Option (Stored T)
  answers : Nat → List Raw

-- `inst` and `data` are those of the latest render, whose effects have not run while `due`.
-- `appended` and `reset` are the dependencies the two effects had when they last ran. `queue` holds
-- the calls of `setSeriesData` that have not been processed, and `timers` the timeouts that have not
-- fired.
structure Hook (Raw T : Type*) extends Stores Raw T where
  now      : Int
  inst     : Option Nat
  data     : Option (Raw × Int)
  due      : Bool
  appended : Option (Int × Option Nat)
  reset    : Option (Option Nat)
  series   : List (Point T)
  queue    : List (Update Raw T)
  timers   : List (Nat × List (Point T))

-- `answer` is a poll that was answered, `forget` and `collect` drop what the query client holds for
-- an instance. A render leaves the queue alone if it is more urgent than the calls in it, so
-- `update`, which processes the oldest call, is an event of its own.
inductive Kind (Raw : Type*)
  | answer (id : Nat) (raw : Raw)
  | forget (id : Nat)
  | collect (id : Nat)
  | render (inst : Option Nat)
  | effects
  | update
  | write (n : Nat)

structure Event (Raw : Type*) where
  now  : Int
  kind : Kind Raw

variable {Raw T : Type*}

namespace Stores

-- What the initializer of the state and the reset effect read for an instance.
def restore (s : Stores Raw T) (now : Int) (id : Nat) : List (Point T) × Option (Stored T) :=
  match s.cache id with
  | some (p :: cached) => (pruneOld now (p :: cached), s.storage id)
  | _                  => readStoredSeries now (s.storage id)

-- The stores after `restore`, which drops what it cannot use.
def restored (s : Stores Raw T) (now : Int) (id : Nat) : Stores Raw T :=
  { s with storage := Function.update s.storage id (s.restore now id).2 }

end Stores

namespace Hook

def mount (s : Stores Raw T) (now : Int) (inst : Option Nat) : Hook Raw T where
  toStores := inst.elim s (s.restored now)
  now      := now
  inst     := inst
  data     := inst.bind s.queries
  due      := true
  appended := none
  reset    := none
  series   := inst.elim [] fun id => (s.restore now id).1
  queue    := []
  timers   := []

def setSeriesData (h : Hook Raw T) (u : Update Raw T) : Hook Raw T :=
  { h with queue := h.queue ++ [u] }

def dataUpdatedAt (h : Hook Raw T) : Int :=
  h.data.elim 0 Prod.snd

def appendEffect (h : Hook Raw T) : Hook Raw T :=
  if h.appended = some (h.dataUpdatedAt, h.inst) then h
  else
    let h := { h with appended := some (h.dataUpdatedAt, h.inst) }
    match h.data, h.inst with
    | some (raw, _), some id => h.setSeriesData (.append id raw)
    | _,             _       => h

def resetEffect (h : Hook Raw T) : Hook Raw T :=
  if h.reset = some h.inst then h
  else
    let h := { h with reset := some h.inst }
    match h.inst with
    | none    => h.setSeriesData (.set [])
    | some id =>
      { h with toStores := h.restored h.now id }.setSeriesData (.set (h.restore h.now id).1)

def process (wrapData : Raw → T) (h : Hook Raw T) : Update Raw T → Hook Raw T
  | .append id raw =>
    let nextSeries := appendSeries h.now h.series ⟨h.now, wrapData raw⟩
    { h with series := nextSeries, timers := h.timers ++ [(id, nextSeries)] }
  | .set series    => { h with series }

def publish (h : Hook Raw T) (id : Nat) (series : List (Point T)) : Hook Raw T :=
  { h with
    cache   := Function.update h.cache id (some series)
    storage := Function.update h.storage id (some (.array (series.map some))) }

def perform (wrapData : Raw → T) (h : Hook Raw T) : Kind Raw → Option (Hook Raw T)
  | .answer id raw => some { h with
      queries := Function.update h.queries id (some (raw, h.now))
      answers := Function.update h.answers id (h.answers id ++ [raw]) }
  | .forget id     => some { h with queries := Function.update h.queries id none }
  | .collect id    => some { h with cache := Function.update h.cache id none }
  | .render inst   =>
    if h.due then none else some { h with inst, data := inst.bind h.queries, due := true }
  | .effects       =>
    if h.due then some { h with due := false }.appendEffect.resetEffect else none
  | .update        =>
    match h.queue with
    | []         => none
    | u :: queue => some <| { h with queue }.process wrapData u
  | .write n       =>
    (h.timers[n]?).map fun (id, series) => { h with timers := h.timers.eraseIdx n }.publish id series

def step (wrapData : Raw → T) (h : Hook Raw T) (e : Event Raw) : Option (Hook Raw T) :=
  if h.now ≤ e.now then { h with now := e.now }.perform wrapData e.kind else none

end Hook

abbrev Reaches (wrapData : Raw → T) (h₀ : Hook Raw T) (es : List (Event Raw)) (h : Hook Raw T) :
    Prop :=
  Run (Hook.step wrapData) h₀ es h

-- The point was computed from an answer that was fetched from the instance.
def IsOf (wrapData : Raw → T) (s : Stores Raw T) (id : Nat) (p : Point T) : Prop :=
  ∃ raw ∈ s.answers id, p.data = wrapData raw

structure IsSeriesOf (wrapData : Raw → T) (s : Stores Raw T) (id : Nat) (series : List (Point T)) :
    Prop where
  own     : ∀ p ∈ series, IsOf wrapData s id p
  ordered : series.Pairwise (·.timestamp ≤ ·.timestamp)
  short   : series.length ≤ maxDataPoints

structure Isolated (wrapData : Raw → T) (s : Stores Raw T) : Prop where
  cache   : ∀ id series, s.cache id = some series → IsSeriesOf wrapData s id series
  storage : ∀ id elements, s.storage id = some (.array elements) →
    IsSeriesOf wrapData s id elements.reduceOption

-- What earlier mounts may have left behind by `now`.
structure Inherited (wrapData : Raw → T) (s : Stores Raw T) (now : Int) : Prop
    extends Isolated wrapData s where
  cachePast   : ∀ id series, s.cache id = some series → ∀ p ∈ series, p.timestamp ≤ now
  storagePast : ∀ id elements, s.storage id = some (.array elements) →
    ∀ p ∈ elements.reduceOption, p.timestamp ≤ now
  fetched     : ∀ id raw at', s.queries id = some (raw, at') → raw ∈ s.answers id

-- The points on screen once the queue is processed, before any of them is pruned.
def upcoming (wrapData : Raw → T) (now : Int) : List (Point T) → List (Update Raw T) → List (Point T)
  | series, []                  => series
  | series, .append _ raw :: us => upcoming wrapData now (series ++ [⟨now, wrapData raw⟩]) us
  | _,      .set series :: us   => upcoming wrapData now series us

-- The effects run for a switch to an instance whose answer was there when it was rendered.
def Switches (h : Hook Raw T) (e : Event Raw) (id : Nat) : Prop :=
  e.kind = .effects ∧ h.inst = some id ∧ h.data.isSome ∧ ∃ inst, h.reset = some inst ∧ inst ≠ some id

-- At such a switch, no point of another instance is on screen that is young enough to be kept.
def CleanSwitch (wrapData : Raw → T) (h : Hook Raw T) (e : Event Raw) : Prop :=
  ∀ id, Switches h e id → ∀ p ∈ upcoming wrapData e.now h.series h.queue,
    e.now - p.timestamp ≤ maxDurationMs → IsOf wrapData h.toStores id p

end TimeSeries
