import LoxilbUi.Api.Capabilities
import LoxilbUi.Connector.OpResultAdapter
import LoxilbUi.Observability.Exposition
import LoxilbUi.Observability.Rates

-- connector/instance/observability.ts and hooks/query/observabilityHooks.ts: a scrape of an instance, and
-- the hook that shares it and retains the last observations. A scrape is cached under the instance and the
-- flavor it is read with; an entry of the cache may be replaced or dropped at any time.

namespace MetricsSnapshot

open Capabilities Exposition Observability OpResultAdapter

structure Snapshot where
  instanceId   : JsNumber
  flavor       : InstanceFlavor
  receivedAtMs : ℚ
  available    : Bool
  failure      : Option OpResult
  families     : Dict ParsedFamily
  diagnostics  : Diagnostics

-- A snapshot as the selectors know it.
def Snapshot.plain (s : Snapshot) : Observability.MetricsSnapshot where
  receivedAtMs := s.receivedAtMs
  available    := s.available
  failure      := s.failure
  families     := s.families.map ParsedFamily.plain

def limitKind : LimitKind → String
  | .bodyBytes   => "body_bytes"
  | .sampleCount => "sample_count"
  | .labelLength => "label_length"
  | .lineLength  => "line_length"

def limitFailure (e : LimitError) : OpResult where
  status    := .failed
  code      := "observability.scrape.limit_" ++ limitKind e.kind
  localeKey := statusLocaleKey .failed
  retryable := false
  rawDetail := some <| limitKind e.kind ++ ": " ++ e.observed.repr ++ " > " ++ e.limit.repr

def bodyOf (resp : SimpleResponse) : String :=
  match resp.code, resp.data with
  | .number n, .string data => if n = 200 then data else ""
  | _, _                    => ""

-- What is made of the response that came at a time.
def queryGetMetricsSnapshot (clock : Clock) (receivedAtMs : ℚ) (instanceId : JsNumber) (flavor : InstanceFlavor)
    (resp : SimpleResponse) : Snapshot :=
  let outcome := fromSimpleResponse clock (some resp) "observability.scrape" .read
  let failure := if outcome.status = .confirmed then none else some outcome
  let parsed := parseExposition (bodyOf resp)
  {
    instanceId   := instanceId
    flavor       := flavor
    receivedAtMs := receivedAtMs
    available    := parsed.limitError.isNone && parsed.diagnostics.totalSamples > 0
    failure      := failure.or <| parsed.limitError.map limitFailure
    families     := parsed.families
    diagnostics  := parsed.diagnostics
  }

def snapshotRetention : Nat :=
  6

-- The instance that a page is about, if there is one, and the flavor it is read with until its own is known.
abbrev Target :=
  Option JsNumber × InstanceFlavor

def flavorText : InstanceFlavor → String
  | .loxilb           => "loxilb"
  | .inferenceGateway => "inference-gateway"

def ringKey (target : Target) : String :=
  ((target.1.map JsNumber.toText).getD "") ++ ":" ++ flavorText target.2

structure Ring where
  key     : String
  entries : List Snapshot

-- `[...entries, snapshot].slice(-SNAPSHOT_RETENTION)`, of an observation that is not the last one.
def record (entries : List Snapshot) (snapshot : Snapshot) : List Snapshot :=
  if entries.getLast?.any (·.receivedAtMs = snapshot.receivedAtMs) then entries
  else sliceEnd (entries ++ [snapshot]) snapshotRetention

-- The effect of a render that came to the screen.
def effect (ring : Ring) (target : Target) (snapshot : Option Snapshot) : Ring :=
  let ring := if ring.key ≠ ringKey target then ⟨ringKey target, []⟩ else ring
  match snapshot with
  | none          => ring
  | some snapshot => { ring with entries := record ring.entries snapshot }

structure View where
  snapshot : Option Snapshot
  history  : List Snapshot

-- What a render returns.
def render (ring : Ring) (target : Target) (snapshot : Option Snapshot) : View :=
  let recorded := if ring.key = ringKey target then ring.entries else []
  {
    snapshot := snapshot
    history  := match snapshot with
      | none          => recorded
      | some snapshot => record recorded snapshot
  }

structure State where
  cache : Target → Option Snapshot
  ring  : Ring

-- The ring of a component that is mounted for a target.
def State.mounted (target : Target) : State where
  cache := fun _ => none
  ring  := ⟨ringKey target, []⟩

inductive Event
  -- A scrape of an instance came back.
  | fetched (instanceId : JsNumber) (flavor : InstanceFlavor) (receivedAtMs : ℚ) (resp : SimpleResponse)
  | dropped (target : Target)
  -- A render for a target, which came to the screen.
  | committed (target : Target)

def step (clock : Clock) (st : State) : Event → State
  | .fetched instanceId flavor receivedAtMs resp => { st with
      cache := fun t => if t = (some instanceId, flavor) then
        some <| queryGetMetricsSnapshot clock receivedAtMs instanceId flavor resp else st.cache t }
  | .dropped target   => { st with cache := fun t => if t = target then none else st.cache t }
  | .committed target => { st with ring := effect st.ring target (st.cache target) }

def run (clock : Clock) (target : Target) (events : List Event) : State :=
  events.foldl (step clock) (.mounted target)

-- What a render for a target returns in a state, whether it comes to the screen or not.
def State.view (st : State) (target : Target) : View :=
  render st.ring target (st.cache target)

end MetricsSnapshot
