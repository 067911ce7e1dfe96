import LoxilbUi.Session.Session
import Mathlib.Algebra.Order.Field.Rat

-- session/sessionPolicy.ts and session/useSessionWatch.ts: the watcher the app root mounts once, as
-- a machine over the callbacks it registers. A callback runs to its end before the next one, and
-- `now` is what `Date.now()` answers while it runs.

-- Milliseconds, as everywhere below.
def proactiveSkewMs : Int :=
  30000

def idleLimitMs : Int :=
  15 * 60000

-- `msUntilProactiveLogout` of a token that expires at `exp`.
def msUntilProactiveLogout (exp : Rat) (now : Int) : Rat :=
  max 0 (exp - proactiveSkewMs - now)

-- When a `setTimeout` of `delay` is due: the delay is cut to an integer, reduced to 32 bits with a
-- sign, and a negative one counts as none.
def timerDue (now : Int) (delay : Rat) : Int :=
  now + max 0 (delay.floor.bmod (2 ^ 32))

namespace SessionWatch

-- What the watcher calls outside itself.
inductive Call
  | requestLogout
  | terminateSession (reason : SessionEndReason)
  | reload
  deriving DecidableEq, Repr

-- `installed` is the `access_token` of localStorage; the timers hold when they are due, and `calls`
-- the calls made so far, oldest first.
structure Watch where
  token       : String
  installed   : Option String
  ended       : Bool
  deadline    : Int
  idleTimer   : Option Int
  expiryTimer : Option Int
  mounted     : Bool
  now         : Int
  calls       : List Call
  deriving DecidableEq

-- `storage` is an event of localStorage for `key`, and none for a `clear()`. `install` is any other
-- code, or tab, that writes or removes the token.
inductive Kind
  | activity
  | visibilitychange (visible : Bool)
  | storage (key : Option String)
  | idleTimer
  | expiryTimer
  | install (token : Option String)
  | unmount
  deriving DecidableEq

structure Event where
  now  : Int
  kind : Kind
  deriving DecidableEq

namespace Watch

def call (s : Watch) (c : Call) : Watch :=
  { s with calls := s.calls ++ [c] }

def ownsSession (s : Watch) : Bool :=
  !s.ended && s.installed == some s.token

def endIdle (s : Watch) : Watch :=
  if !s.ownsSession then s
  else { s with ended := true }.call .requestLogout |>.call (.terminateSession .idle)

def scheduleIdle (s : Watch) : Watch :=
  let s := { s with idleTimer := none }
  let remaining : Int := s.deadline - s.now
  if !s.ownsSession then s
  else if remaining ≤ 0 then s.endIdle
  else { s with idleTimer := some (timerDue s.now remaining) }

def onActivity (s : Watch) : Watch :=
  if !s.ownsSession then s
  else { s with deadline := s.now + idleLimitMs }.scheduleIdle

def onVisible (s : Watch) (visible : Bool) : Watch :=
  if visible then s.scheduleIdle else s

def onStorage (s : Watch) (key : Option String) : Watch :=
  if key ≠ none ∧ key ≠ some tokenKey then s
  else
    match s.installed with
    | none | some "" => s.call (.terminateSession .logout)
    | some current   => if current ≠ s.token then s.call .reload else s

def onExpiry (s : Watch) : Watch :=
  if s.ownsSession then s.call (.terminateSession .expired) else s

-- The cleanup of the effect.
def unmount (s : Watch) : Watch :=
  { s with idleTimer := none, expiryTimer := none, mounted := false }

-- The effect, under a token whose `parseJwtExp` is `exp`, or that it cannot read.
def mount (installed : Option String) (exp : Option Rat) (now : Int) : Option Watch :=
  match installed with
  | none | some "" => none
  | some token =>
    let s : Watch := {
      token, installed, now
      ended       := false
      deadline    := now + idleLimitMs
      idleTimer   := none
      expiryTimer := none
      mounted     := true
      calls       := [] }
    match exp with
    | some exp => some { s with expiryTimer := timerDue now (msUntilProactiveLogout exp now) }.scheduleIdle
    | none     => some <| s.call (.terminateSession .expired) |>.scheduleIdle

def handle (s : Watch) : Kind → Watch
  | .activity                 => s.onActivity
  | .visibilitychange visible => s.onVisible visible
  | .storage key              => s.onStorage key
  | .idleTimer                => { s with idleTimer := none }.scheduleIdle
  | .expiryTimer              => { s with expiryTimer := none }.onExpiry
  | .install token            => { s with installed := token }
  | .unmount                  => s.unmount

-- A timer fires when it is due or any time later. Nothing reaches an unmounted watcher.
def enabled (s : Watch) (now : Int) : Kind → Bool
  | .idleTimer   => s.idleTimer.any (· ≤ now)
  | .expiryTimer => s.expiryTimer.any (· ≤ now)
  | .install _   => true
  | _            => s.mounted

def step (s : Watch) (e : Event) : Option Watch :=
  if s.now ≤ e.now ∧ s.enabled e.now e.kind then some <| { s with now := e.now }.handle e.kind
  else none

-- Some `terminateSession` call has been made.
def Over (s : Watch) : Prop :=
  ∃ r, .terminateSession r ∈ s.calls

end Watch

-- The instant of the latest activity event, or of the mount.
def lastActivity (mounted : Int) (es : List Event) : Int :=
  es.foldl (fun t e => if e.kind = .activity then e.now else t) mounted

-- The events by which an operator comes back, and the timers.
def Kind.Returns : Kind → Prop
  | activity | visibilitychange true | idleTimer | expiryTimer => True
  | _                                                          => False

-- What the idle limit asks of one step, `e`, that follows the events `es`.
structure IdleLimited (mounted : Int) (es : List Event) (s : Watch) (e : Event) (s' : Watch) :
    Prop where
  idle_late : ∀ new, s'.calls = s.calls ++ new → .terminateSession .idle ∈ new →
    lastActivity mounted es + idleLimitMs ≤ e.now
  ends : e.kind.Returns → lastActivity mounted es + idleLimitMs < e.now → s'.Over

-- The watched token is still the installed one.
def Installed (s : Watch) (_ : Event) : Prop :=
  s.installed = some s.token

-- Interaction comes no later than the deadline, while there is a session left to end.
def Timely (s : Watch) (e : Event) : Prop :=
  e.kind = .activity → e.now ≤ s.deadline ∨ s.Over

-- What the watcher of `token`, mounted at `mounted`, promises of one step: `expired` is called neither
-- before the token's own schedule nor once another token is installed.
structure Punctual (token : Option String) (exp : Rat) (mounted : Int) (s : Watch) (e : Event)
    (s' : Watch) : Prop where
  due : ∀ new, s'.calls = s.calls ++ new → .terminateSession .expired ∈ new →
    max (mounted : Rat) (exp - proactiveSkewMs) ≤ e.now
  watched : ∀ new, s'.calls = s.calls ++ new → .terminateSession .expired ∈ new →
    s'.installed = token

-- The wait for the proactive logout is a whole number that 32 bits with a sign have room for.
def TimerKeeps (exp : Rat) (mounted : Int) : Prop :=
  ∃ delay : Int, msUntilProactiveLogout exp mounted = delay ∧ delay < 2 ^ 31

end SessionWatch
