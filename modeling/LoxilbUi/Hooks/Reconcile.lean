import LoxilbUi.Library.Run

-- hooks/query/reconcile.ts: one `useReconciler` instance and every poll chain its `reconcile` has
-- started. A chain is the body of one `reconcile` call; its `Await` says at which `await` it stands.
-- A promise that settles only queues the continuation, so settling and resuming are separate steps:
-- an abort can land between them.

inductive ReconcileOutcome
  | confirmed
  | pending
  deriving DecidableEq, Repr

namespace Reconcile

variable {T : Type}

def defaultReconcileIntervalsMs : List Nat :=
  [500, 1000, 2000, 4000]

structure ReconcileSpec (T : Type) where
  confirm     : Option (T → Bool)
  intervalsMs : Option (List Nat)

-- The schedule of `spec.intervalsMs ?? DEFAULT_RECONCILE_INTERVALS_MS`.
def ReconcileSpec.intervals (spec : ReconcileSpec T) : List Nat :=
  spec.intervalsMs.getD defaultReconcileIntervalsMs

-- How a `spec.refetch()` ends, a rejection and a synchronous throw alike.
inductive Settlement (T : Type)
  | value (v : T)
  | undefined
  | throw

-- `read`: a failed read is no read.
def Settlement.read : Settlement T → Option T
  | value v           => some v
  | undefined | throw => none

inductive Await (T : Type)
  | reading  (intervals : List Nat)
  | read     (latest : Option T) (intervals : List Nat)
  | sleeping (delay : Nat) (intervals : List Nat)
  | slept    (intervals : List Nat)
  | resolved (o : ReconcileOutcome)

-- `sleep`: an aborted signal resolves at once, else a timer is armed.
def sleep (delay : Nat) (aborted : Bool) (intervals : List Nat) : Await T :=
  if aborted then .slept intervals else .sleeping delay intervals

-- `latest !== undefined && spec.confirm(latest)`
def confirms (confirm : T → Bool) (latest : Option T) : Bool :=
  latest.any confirm

-- The loop over the intervals, from the test of `latest` to the next `await`. The last test, after
-- the loop, is the same one without an interval left to sleep.
def poll (confirm : T → Bool) (aborted : Bool) (latest : Option T) : List Nat → Await T
  | [] =>
    if aborted then .resolved .pending
    else if confirms confirm latest then .resolved .confirmed
    else .resolved .pending
  | delay :: intervals =>
    if aborted then .resolved .pending
    else if confirms confirm latest then .resolved .confirmed
    else sleep delay aborted intervals

structure Chain (T : Type) where
  spec    : ReconcileSpec T
  aborted : Bool
  await   : Await T

namespace Chain

-- The call: a fresh controller, and the acceptance read is started.
def start (spec : ReconcileSpec T) : Chain T where
  spec    := spec
  aborted := false
  await   := .reading spec.intervals

-- `controller.abort()`: an armed timer is cleared and its sleep resolves.
def abort (c : Chain T) : Chain T :=
  { c with
    aborted := true
    await   := match c.await with
      | .sleeping _ intervals => .slept intervals
      | a                     => a }

def settle (r : Settlement T) (c : Chain T) : Option (Chain T) :=
  match c.await with
  | .reading intervals => some { c with await := .read r.read intervals }
  | _                  => none

-- The timer of `sleep` goes off.
def fire (c : Chain T) : Option (Chain T) :=
  match c.await with
  | .sleeping _ intervals => some { c with await := .slept intervals }
  | _                     => none

-- The continuation of a settled `await` runs up to the next one. Only the acceptance read can find
-- no `confirm`: a chain without one never gets past it.
def resume (c : Chain T) : Option (Chain T) :=
  match c.await with
  | .read latest intervals =>
    match c.spec.confirm with
    | none         => some { c with await := .resolved .confirmed }
    | some confirm => some { c with await := poll confirm c.aborted latest intervals }
  | .slept intervals =>
    if c.aborted then some { c with await := .resolved .pending }
    else some { c with await := .reading intervals }
  | _ => none

end Chain

-- `chains` holds the calls in the order they were made; `controllerRef` names the call whose
-- controller the ref holds.
structure Reconciler (T : Type) where
  chains        : List (Chain T)
  controllerRef : Option Nat
  mounted       : Bool

inductive Event (T : Type)
  | reconcile (spec : ReconcileSpec T)
  | unmount
  | settle (i : Nat) (r : Settlement T)
  | fire (i : Nat)
  | resume (i : Nat)

namespace Reconciler

def mount : Reconciler T where
  chains        := []
  controllerRef := none
  mounted       := true

-- `controllerRef.current?.abort()`
def abortCurrent (s : Reconciler T) : List (Chain T) :=
  match s.controllerRef with
  | none   => s.chains
  | some i => s.chains.modify i Chain.abort

def reconcile (s : Reconciler T) (spec : ReconcileSpec T) : Reconciler T :=
  { s with
    chains        := s.abortCurrent ++ [.start spec]
    controllerRef := some s.chains.length }

-- The cleanup of the mount effect.
def unmount (s : Reconciler T) : Reconciler T where
  chains        := s.abortCurrent
  controllerRef := none
  mounted       := false

def advance (s : Reconciler T) (i : Nat) (f : Chain T → Option (Chain T)) : Option (Reconciler T) :=
  (s.chains[i]?.bind f).map fun c => { s with chains := s.chains.set i c }

def step (s : Reconciler T) : Event T → Option (Reconciler T)
  | .reconcile spec => some (s.reconcile spec)
  | .unmount        => if s.mounted then some s.unmount else none
  | .settle i r     => s.advance i (Chain.settle r)
  | .fire i         => s.advance i Chain.fire
  | .resume i       => s.advance i Chain.resume

end Reconciler

-- The events that abandon the calls still running: a later call, and leaving the page.
def Event.Abandons : Event T → Prop
  | reconcile _ | unmount => True
  | _                     => False

namespace Chain

def Resolved (c : Chain T) (o : ReconcileOutcome) : Prop :=
  c.await = .resolved o

def Unresolved (c : Chain T) : Prop :=
  ∀ o, ¬c.Resolved o

end Chain

abbrev Reaches (es : List (Event T)) (s : Reconciler T) : Prop :=
  Run Reconciler.step Reconciler.mount es s

-- Call `i` was still running when the run `es` abandoned it.
def Abandoned (es : List (Event T)) (i : Nat) : Prop :=
  Run.Sometime Reconciler.step Reconciler.mount
    (fun s e => e.Abandons ∧ ∃ c, s.chains[i]? = some c ∧ c.Unresolved) es

-- The run `es` handed call `i`, after it had started, a value of its own refetch that `confirm`
-- accepts.
def ReadConfirming (es : List (Event T)) (i : Nat) (confirm : T → Bool) : Prop :=
  Run.Sometime Reconciler.step Reconciler.mount
    (fun s e => ∃ v c, e = .settle i (.value v) ∧ s.chains[i]? = some c ∧ confirm v = true) es

-- What the outcomes of the calls promise their callers.
structure Honest (es : List (Event T)) (s : Reconciler T) : Prop where
  abandoned_pending : ∀ i c o, s.chains[i]? = some c → c.Resolved o → Abandoned es i → o = .pending
  confirmed_read    : ∀ i c f, s.chains[i]? = some c → c.Resolved .confirmed →
    c.spec.confirm = some f → ReadConfirming es i f

-- An acceptance read never comes back to an aborted call that has no `confirm`.
def ReturnsLive (s : Reconciler T) : Event T → Prop
  | .resume i => ∀ c latest intervals, s.chains[i]? = some c → c.await = .read latest intervals →
      c.spec.confirm = none → c.aborted = false
  | _ => True

section Reads

-- A refetch is on its way.
def Await.isReading : Await T → Bool
  | reading _ => true
  | _         => false

def Chain.isReading (c : Chain T) : Bool :=
  c.await.isReading

def Reconciler.isReading (s : Reconciler T) (i : Nat) : Bool :=
  s.chains[i]?.any Chain.isReading

-- The step from `s` to `s'` starts a refetch of call `i`.
def startsRead (s s' : Reconciler T) (i : Nat) : Bool :=
  s'.isReading i && !s.isReading i

-- How many refetches of call `i` the events start from `s` on, and how many they settle.
def readsStarted (i : Nat) : Reconciler T → List (Event T) → Nat
  | _, []      => 0
  | s, e :: es =>
    match s.step e with
    | none    => 0
    | some s' => (startsRead s s' i).toNat + readsStarted i s' es

def Event.settles (i : Nat) : Event T → Bool
  | settle j _ => i = j
  | _          => false

def readsSettled (i : Nat) (es : List (Event T)) : Nat :=
  es.countP (Event.settles i)

-- What a run owes the page for the refetches it starts: none of a superseded call or of a dead page,
-- never two of one call at once, and no more of it than its schedule has room for.
structure Restrained (es : List (Event T)) (s : Reconciler T) : Prop where
  live    : Run.EachStep Reconciler.step Reconciler.mount
    (fun _ s _ s' => ∀ i, startsRead s s' i = true → s.mounted = true ∧ i + 1 = s'.chains.length) es
  single  : ∀ i, readsStarted i .mount es ≤ readsSettled i es + 1
  bounded : ∀ i c, s.chains[i]? = some c → readsStarted i .mount es ≤ 1 + c.spec.intervals.length

-- No call is made once the page is gone.
def CalledMounted (s : Reconciler T) : Event T → Prop
  | .reconcile _ => s.mounted = true
  | _            => True

end Reads

end Reconcile
