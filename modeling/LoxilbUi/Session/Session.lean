import Mathlib.Data.List.AList
import LoxilbUi.Library.JsString
import LoxilbUi.Library.Run

-- session/session.ts, with the part of connector/fetcher/fetcher_base.ts that acts on a 401 and the
-- lines of LoginPage.tsx that install a token: one browser tab, its stores, and the OAM it talks to.
-- Every event is a piece of code that runs without an `await`, or a step of OAM or of the network.

inductive SessionEndReason
  | logout
  | expired
  | idle
  | revoked
  deriving DecidableEq, Repr

def SessionEndReason.text : SessionEndReason → String
  | logout  => "logout"
  | expired => "expired"
  | idle    => "idle"
  | revoked => "revoked"

inductive UnauthorizedVerdict
  | inline
  | expire
  | verify
  deriving DecidableEq, Repr

abbrev Storage :=
  AList fun _ : String => String

def tokenKey : String :=
  "access_token"

def reasonKey : String :=
  "session_end_reason"

def redirectKey : String :=
  "session_redirect_target"

def persistedCacheKey : String :=
  "REACT_QUERY_OFFLINE_CACHE"

def seriesKeyMark : String :=
  "-series_"

namespace Session

-- `rememberRedirectTarget`, under the app root `root`.
def rememberRedirectTarget (root path : String) (sessionStorage : Storage) : Storage :=
  if !JsString.startsWith path "/" || JsString.startsWith path "//" then sessionStorage
  else
    let withoutRoot :=
      if root ≠ "" && JsString.startsWith path (root ++ "/") then JsString.slice path root.length
      else path
    let withoutFragment := JsString.splitHead withoutRoot '#'
    let bare := JsString.splitHead withoutFragment '?'
    if bare = "/login" || bare = "/" then sessionStorage
    else sessionStorage.insert redirectKey withoutFragment

def isDoomed (token : String) (store : Storage) (key : String) : Bool :=
  let value := (store.lookup key).getD ""
  key == tokenKey || key == persistedCacheKey || JsString.includes key seriesKeyMark ||
    (token != "" && JsString.includes value token)

-- The body of the loop of `purgeSessionStorage`, for one of the two stores. `if (!key) continue`
-- also passes over the empty key.
def purgeStore (token : String) (store : Storage) : Storage :=
  let doomed := store.keys.filter fun key => key != "" && isDoomed token store key
  doomed.foldl (fun store key => store.erase key) store

-- A request on its way, with the `access_token` that `fetch_data` read when it was sent.
structure Request where
  token    : String
  answered : Bool
  deriving DecidableEq

-- A probe of `/users/me`: OAM handles it, and later its promise settles to whether OAM said 401. A
-- failure of the network settles it to `false`.
inductive Answer
  | sent
  | handled (unauthorized : Bool)
  | settled (ended : Bool)
  deriving DecidableEq

structure Probe where
  token  : String
  answer : Answer
  deriving DecidableEq

inductive VerifyOutcome
  | waiting
  | live
  | replaced
  | terminated
  deriving DecidableEq

-- A call of `endSessionIfOAMConfirms` that awaits a probe.
structure Verify where
  token   : String
  probe   : Nat
  outcome : VerifyOutcome
  deriving DecidableEq

-- A call of `terminateSession` that got past the guard: the token it read, and how many purges it
-- still has to await. With none left, the rest of its body has run.
structure Teardown where
  reason : SessionEndReason
  token  : String
  left   : Nat
  deriving DecidableEq

-- `path` is `pathname + search`.
structure Location where
  href : String
  path : String
  deriving DecidableEq

-- What the app registers at start-up and is built with: its session purges and `get_root_url()`.
structure App where
  purges : Nat
  root   : String

-- `revoked` are the tokens OAM answers 401 for. A request, a probe, a wait and a teardown are named
-- by their position in their list.
structure Tab where
  localStorage   : Storage
  sessionStorage : Storage
  terminating    : Bool
  sessionProbe   : Option (String × Nat)
  requests       : List Request
  probes         : List Probe
  verifies       : List Verify
  teardowns      : List Teardown
  location       : Location
  navigations    : List String
  revoked        : List String

inductive Event
  | login (token : String)
  | locate (location : Location)
  | send
  | revoke (token : String)
  | unauthorized (i : Nat) (verdict : UnauthorizedVerdict)
  | handle (p : Nat)
  | settle (p : Nat)
  | fail (p : Nat)
  | resume (j : Nat)
  | terminate (reason : SessionEndReason)
  | purged (k : Nat)

namespace Tab

def load (localStorage sessionStorage : Storage) (location : Location) : Tab where
  localStorage   := localStorage
  sessionStorage := sessionStorage
  terminating    := false
  sessionProbe   := none
  requests       := []
  probes         := []
  verifies       := []
  teardowns      := []
  location       := location
  navigations    := []
  revoked        := []

def loadToken (s : Tab) : String :=
  (s.localStorage.lookup tokenKey).getD ""

-- `beginSession()`, the token is saved, and the remembered route is consumed.
def login (s : Tab) (token : String) : Tab :=
  { s with
    terminating    := false
    localStorage   := s.localStorage.insert tokenKey token
    sessionStorage := s.sessionStorage.erase redirectKey }

-- `if (!window.location.href.includes('/login')) move_forced('/login')`
def moveToLogin (app : App) (s : Tab) : List String :=
  if JsString.includes s.location.href "/login" then s.navigations
  else s.navigations ++ [app.root ++ "/login"]

-- Both rounds of the loop of `purgeSessionStorage`.
def purgeSessionStorage (token : String) (s : Tab) : Tab :=
  { s with
    localStorage   := purgeStore token s.localStorage
    sessionStorage := purgeStore token s.sessionStorage }

-- The body of `terminateSession` from the storage scan on.
def tearDown (app : App) (s : Tab) (reason : SessionEndReason) (token : String) : Tab :=
  { s with
    localStorage   := purgeStore token s.localStorage
    sessionStorage := rememberRedirectTarget app.root s.location.path <|
      (purgeStore token s.sessionStorage).insert reasonKey reason.text
    navigations    := s.moveToLogin app }

-- The body up to the first purge it awaits, or all of it when none is registered.
def terminateSession (app : App) (s : Tab) (reason : SessionEndReason) : Tab :=
  if s.terminating then s
  else
    let token := s.loadToken
    let s := { s with
      terminating := true
      teardowns   := s.teardowns ++ [{ reason, token, left := app.purges }] }
    if app.purges = 0 then s.tearDown app reason token else s

-- An awaited purge has settled, well or badly.
def purged (app : App) (s : Tab) (k : Nat) : Option Tab :=
  match s.teardowns[k]? with
  | some ⟨reason, token, left + 1⟩ =>
    let s := { s with teardowns := s.teardowns.set k { reason, token, left } }
    some <| if left = 0 then s.tearDown app reason token else s
  | _ => none

def startProbe (s : Tab) (token : String) : Tab :=
  { s with
    probes       := s.probes ++ [{ token, answer := .sent }]
    sessionProbe := some (token, s.probes.length) }

-- `oamSessionEnded`: the probe whose promise the caller awaits, one per token.
def oamSessionEnded (s : Tab) (token : String) : Nat × Tab :=
  match s.sessionProbe with
  | some (t, p) => if t = token then (p, s) else (s.probes.length, s.startProbe token)
  | none        => (s.probes.length, s.startProbe token)

-- `endSessionIfOAMConfirms`, from the test of the installed token on.
def confirmEnd (app : App) (s : Tab) (token : String) : VerifyOutcome × Tab :=
  if s.loadToken ≠ token then (.replaced, s)
  else (.terminated, s.terminateSession app .revoked)

def endSessionIfOAMConfirms (app : App) (s : Tab) (token : String) : Tab :=
  if token = "" then (s.confirmEnd app token).2
  else
    let (probe, s) := s.oamSessionEnded token
    { s with verifies := s.verifies ++ [{ token, probe, outcome := .waiting }] }

-- A request is answered with a 401.
def unauthorized (app : App) (s : Tab) (i : Nat) (verdict : UnauthorizedVerdict) : Option Tab :=
  match s.requests[i]? with
  | some ⟨token, false⟩ =>
    let s := { s with requests := s.requests.set i { token, answered := true } }
    match verdict with
    | .inline => some s
    | .expire => some <| s.terminateSession app .revoked
    | .verify => some <| s.endSessionIfOAMConfirms app token
  | _ => none

-- The continuation of a wait whose probe has settled.
def resume (app : App) (s : Tab) (j : Nat) : Option Tab :=
  match s.verifies[j]? with
  | some ⟨token, probe, .waiting⟩ =>
    match s.probes[probe]? with
    | some ⟨_, .settled ended⟩ =>
      let (outcome, s) := if !ended then (.live, s) else s.confirmEnd app token
      some { s with verifies := s.verifies.set j { token, probe, outcome } }
    | _ => none
  | _ => none

def advance (s : Tab) (p : Nat) (f : Probe → Option Answer) : Option Tab :=
  match s.probes[p]? with
  | some probe => (f probe).map fun answer => { s with probes := s.probes.set p { probe with answer } }
  | none       => none

def step (app : App) (s : Tab) : Event → Option Tab
  | .login token            => if token = "" then none else some <| s.login token
  | .locate location        => some { s with location }
  | .send                   => some { s with
      requests := s.requests ++ [{ token := s.loadToken, answered := false }] }
  | .revoke token           => some { s with revoked := token :: s.revoked }
  | .unauthorized i verdict => s.unauthorized app i verdict
  | .handle p               => s.advance p fun
      | ⟨token, .sent⟩ => some <| .handled (token ∈ s.revoked)
      | _              => none
  | .settle p               => s.advance p fun
      | ⟨_, .handled unauthorized⟩ => some <| .settled unauthorized
      | _                          => none
  | .fail p                 => s.advance p fun
      | ⟨_, .settled _⟩ => none
      | _               => some <| .settled false
  | .resume j               => s.resume app j
  | .terminate reason       => some <| s.terminateSession app reason
  | .purged k               => s.purged app k

end Tab

abbrev Reaches (app : App) (s₀ : Tab) (es : List Event) (s : Tab) : Prop :=
  Run (Tab.step app) s₀ es s

-- The event acts on a 401 that answered a request which carried `token`.
def Event.Answers (s : Tab) (token : String) : Event → Prop
  | unauthorized i _ => ∃ q, s.requests[i]? = some q ∧ q.token = token
  | resume j         => ∃ v, s.verifies[j]? = some v ∧ v.token = token
  | _                => False

def Event.IsLogin : Event → Prop
  | login _ => True
  | _       => False

-- What an event owes the session that is installed when it comes.
structure Spares (s : Tab) (e : Event) (s' : Tab) : Prop where
  answered : ∀ token, e.Answers s token → s.loadToken ≠ "" → s.loadToken ≠ token →
    s'.loadToken = s.loadToken ∧ s'.teardowns = s.teardowns
  tornDown : ∀ k d, e = .purged k → s.teardowns[k]? = some d → s.loadToken ≠ "" →
    s.loadToken ≠ d.token → s'.loadToken = s.loadToken

-- What a run from the page load `s₀` owes every session: `once` speaks of the stretches without a
-- login.
structure Isolated (app : App) (s₀ : Tab) (es : List Event) : Prop where
  spares : Run.EachStep (Tab.step app) s₀ (fun _ => Spares) es
  once   : ∀ es₁ es₂ s₁ s₂, es₁ ++ es₂ <+: es → Reaches app s₀ es₁ s₁ → Reaches app s₁ es₂ s₂ →
    (∀ e ∈ es₂, ¬e.IsLogin) → s₂.teardowns.length ≤ s₁.teardowns.length + 1

-- A 401 that ends the session unasked carried the token of that session, and a teardown that comes
-- to the storage scan finds the token it began with: unless there is no session any more.
def Addressed (s : Tab) : Event → Prop
  | .unauthorized i .expire => ∀ q, s.requests[i]? = some q →
      s.terminating = true ∨ s.loadToken = "" ∨ s.loadToken = q.token
  | .purged k               => ∀ d, s.teardowns[k]? = some d → d.left = 1 →
      s.loadToken = "" ∨ s.loadToken = d.token
  | _                       => True

-- Wait `j` began with an unattributed 401 for the installed token, after OAM had ended its session.
def ArrivedEnded (app : App) (s₀ : Tab) (es : List Event) (j : Nat) : Prop :=
  Run.Sometime (Tab.step app) s₀ (fun s e => ∃ i q, e = .unauthorized i .verify ∧
    s.requests[i]? = some q ∧ q.token ≠ "" ∧ q.token ∈ s.revoked ∧ s.loadToken = q.token ∧
    j = s.verifies.length) es

-- `j` is such a wait, it is over, and its token is still the installed one.
def Decides (app : App) (s₀ : Tab) (es : List Event) (s : Tab) (e : Event) (v : Verify) : Prop :=
  ∃ j, e = .resume j ∧ s.verifies[j]? = some v ∧ ArrivedEnded app s₀ es j ∧ s.loadToken = v.token

-- What a 401 that OAM itself would confirm leads to.
structure EndsRevoked (app : App) (s₀ : Tab) (es : List Event) : Prop where
  terminates : Run.EachStep (Tab.step app) s₀ (fun es s e s' =>
    ∀ v, Decides app s₀ es s e v → s'.terminating = true) es
  resumes    : ∀ es' s j v p ended, es' <+: es → Reaches app s₀ es' s → s.verifies[j]? = some v →
    v.outcome = .waiting → s.probes[v.probe]? = some p → p.answer = .settled ended →
    (s.step app (.resume j)).isSome

-- The probe that was consulted came back with a 401, or the session is ending anyway.
def ConfirmedByProbe (app : App) (s₀ : Tab) (es : List Event) (s : Tab) (e : Event) (_ : Tab) :
    Prop :=
  ∀ v, Decides app s₀ es s e v →
    s.terminating = true ∨ ∃ p, s.probes[v.probe]? = some p ∧ p.answer = .settled true

-- `path` is the app root or a page below it.
def IsUnder (root path : String) : Prop :=
  path = root ∨ JsString.startsWith path (root ++ "/")

-- What `t` has to be in order to stand for the page at `path`, under the app root `root`.
structure Targets (root path t : String) : Prop where
  slash    : JsString.startsWith t "/"
  host     : ¬JsString.startsWith t "//"
  fragment : '#' ∉ t.toList
  page     : JsString.splitHead t '?' ≠ "/login" ∧ JsString.splitHead t '?' ≠ "/"
  below    : IsUnder root path → root ++ t = JsString.splitHead path '#'
  outside  : ¬IsUnder root path → t = JsString.splitHead path '#'

-- The call stores a target for the page at `path`, or nothing at all.
structure Redirects (root path : String) : Prop where
  stores : ∀ store, rememberRedirectTarget root path store = store ∨
    ∃ t, Targets root path t ∧ rememberRedirectTarget root path store = store.insert redirectKey t
  atRoot : path = root → ∀ store, rememberRedirectTarget root path store = store

-- A path on the host the app is served from.
def IsLocal (path : String) : Prop :=
  JsString.startsWith path "/" ∧ ¬JsString.startsWith path "//"

-- The part of `path` that names the page is that of the login page or of the start page.
def IsEntry (path : String) : Prop :=
  JsString.splitHead (JsString.splitHead path '#') '?' ∈ ["/login", "/"]

-- Where the tests of `rememberRedirectTarget` find out what they are there for: no second slash
-- comes to the front with the cut, the root is not taken for a page below it, and no fragment is cut
-- off with the root.
structure Recognised (root path : String) : Prop where
  host     : root ≠ "" → ¬JsString.startsWith path (root ++ "//")
  atRoot   : path = root → IsEntry root
  fragment : '#' ∈ root.toList → JsString.startsWith path (root ++ "/") →
    IsEntry (JsString.slice path root.length)

-- The entry is session data: by its name, or because its value holds the token.
def IsSessionData (token key value : String) : Prop :=
  key = tokenKey ∨ key = persistedCacheKey ∨ JsString.includes key seriesKeyMark ∨
    JsString.includes value token

-- `store'` is what is to be left of `store`.
structure Purges (token : String) (store store' : Storage) : Prop where
  gone  : ∀ key value, store'.lookup key = some value → ¬IsSessionData token key value
  stays : ∀ key value, store.lookup key = some value → ¬IsSessionData token key value →
    store'.lookup key = some value
  old   : ∀ key value, store'.lookup key = some value → store.lookup key = some value

end Session
