import LoxilbUi.Session.Session

-- The writes that a page puts off to a later task, next to the session of its tab: those of
-- `useGenericSeries` in hooks/query/common.ts, and the saves of the query cache by its persister.

namespace DeferredWrites

-- The one series of the app, in hooks/query/metricsTimeSeriesHook.ts.
def seriesKey : String :=
  "conntrack-series"

def storageKey (id : Nat) : String :=
  seriesKey ++ "_" ++ id.repr

-- A `setTimeout` that has not fired: what it will save, and how many were made before it.
structure Write where
  id    : Nat
  key   : String
  value : String
  deriving DecidableEq

-- `made` counts the writes put off so far, and `began` tells for each teardown how many there were
-- when it began.
structure Page where
  tab    : Session.Tab
  writes : List Write
  made   : Nat
  began  : List Nat

-- `update` is the updater of a series that runs for the instance `id`, and `change` a change of the
-- query cache. Write `i` of those that are left fires.
inductive Event
  | tab (e : Session.Event)
  | update (id : Nat) (series : String)
  | change (cache : String)
  | write (i : Nat)

def Event.IsLogin : Event → Prop
  | tab e => e.IsLogin
  | _     => False

namespace Page

def load (localStorage sessionStorage : Storage) (location : Session.Location) : Page where
  tab    := .load localStorage sessionStorage location
  writes := []
  made   := 0
  began  := []

def defer (p : Page) (key value : String) : Page :=
  { p with
    writes := p.writes ++ [{ id := p.made, key, value }]
    made   := p.made + 1 }

-- The session goes on to `tab`, with at most one teardown more.
def enter (p : Page) (tab : Session.Tab) : Page :=
  { p with
    tab
    began := if p.tab.teardowns.length < tab.teardowns.length then p.began ++ [p.made] else p.began }

def save (p : Page) (w : Write) : Page :=
  { p with tab := { p.tab with localStorage := p.tab.localStorage.insert w.key w.value } }

def step (app : Session.App) (p : Page) : Event → Option Page
  | .tab e            => (p.tab.step app e).map p.enter
  | .update id series => some <| p.defer (storageKey id) series
  | .change cache     => some <| p.defer persistedCacheKey cache
  | .write i          => (p.writes[i]?).map fun w => { p with writes := p.writes.eraseIdx i }.save w

-- How many writes had been made when teardown `k` began, or when it would, now.
def beganAt (p : Page) (k : Nat) : Nat :=
  p.began.getD k p.made

-- The whole body of teardown `k` has run.
def Over (p : Page) (k : Nat) : Prop :=
  ∃ d, p.tab.teardowns[k]? = some d ∧ d.left = 0

end Page

abbrev Reaches (app : Session.App) (p₀ : Page) (es : List Event) (p : Page) : Prop :=
  Run (Page.step app) p₀ es p

-- A key that no store may hold once the session has ended.
def IsResidue (key : String) : Prop :=
  key = tokenKey ∨ key = persistedCacheKey ∨ JsString.includes key seriesKeyMark = true

def Clean (store : Storage) : Prop :=
  ∀ key ∈ store, ¬IsResidue key

-- The step to `p'` is the one that brings teardown `k` to its end.
def Completes (p p' : Page) (k : Nat) : Prop :=
  ¬p.Over k ∧ p'.Over k

-- However the page goes on from `p`, no write that was put off before teardown `k` began brings residue
-- back before a new session.
def StaysClean (app : Session.App) (p : Page) (k : Nat) : Prop :=
  ∀ es p' p'' i w, Reaches app p es p' → (∀ e ∈ es, ¬e.IsLogin) → p'.writes[i]? = some w →
    p'.step app (.write i) = some p'' → w.id < p.beganAt k → ¬IsResidue w.key

-- What the end of a teardown leaves behind, along a run.
def LeavesNothing (app : Session.App) (p₀ : Page) (es : List Event) : Prop :=
  Run.EachStep (Page.step app) p₀ (fun _ p _ p' => ∀ k, Completes p p' k →
    Clean p'.tab.localStorage ∧ Clean p'.tab.sessionStorage ∧ StaysClean app p' k) es

-- Where the event ends a teardown, every write put off before that began has fired.
def Drained (app : Session.App) (p : Page) (e : Event) : Prop :=
  ∀ p' k, p.step app e = some p' → Completes p p' k → ∀ w ∈ p.writes, p.beganAt k ≤ w.id

end DeferredWrites
