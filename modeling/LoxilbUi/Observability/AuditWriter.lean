import LoxilbUi.Observability.Snapshot

-- observability/auditWriter.ts, on whether the heartbeat of the audit writer goes on.

namespace Observability

def auditHeartbeatIntervalMs : ℚ :=
  30000

-- A track is only made of a finite value.
structure HeartbeatTrack where
  value         : ℚ
  -- When the first snapshot with the value was received.
  firstSeenAtMs : ℚ
  sawAdvance    : Bool
  deriving DecidableEq

def trackHeartbeat (prev : Option HeartbeatTrack) (value : Option Value) (receivedAtMs : ℚ) :
    Option HeartbeatTrack :=
  match value with
  | some (.finite q) =>
    match prev with
    | none       => some ⟨q, receivedAtMs, false⟩
    | some track => if track.value = q then some track else some ⟨q, receivedAtMs, true⟩
  | _                => prev

inductive HeartbeatLiveness
  | unknown
  | never
  | advancing
  | watching (observedMs : ℚ)
  | stalled (sinceMs : ℚ)
  deriving DecidableEq

def heartbeatLiveness (track : Option HeartbeatTrack) (nowReceivedAtMs cadenceMs : ℚ) : HeartbeatLiveness :=
  match track with
  | none       => .unknown
  | some track =>
    if track.value ≤ 0 then .never
    else
      let unchangedMs := nowReceivedAtMs - track.firstSeenAtMs
      if unchangedMs > 2 * auditHeartbeatIntervalMs + cadenceMs then .stalled unchangedMs
      else if track.sawAdvance then .advancing
      else .watching unchangedMs

-- What one snapshot shows of the heartbeat.
structure Observation where
  value        : Option Value
  receivedAtMs : ℚ

-- The track after snapshots, oldest first.
def trackOf (observations : List Observation) : Option HeartbeatTrack :=
  observations.foldl (fun track o => trackHeartbeat track o.value o.receivedAtMs) none

end Observability
