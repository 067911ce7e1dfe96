import LoxilbUi.Observability.Snapshot

-- observability/pdJoin.ts: the endpoint that a service and an index stand for, by the info series.

namespace Observability

inductive EpJoinResult
  | ok (ep : String)
  | unknown
  | ambiguous
  deriving DecidableEq

abbrev EpJoinIndex :=
  Dict EpJoinResult

def epInfoFamily : String :=
  "loxilb_pd_ep_info"

-- The pair as one text, with the NUL character between.
def keyOf (service epIdx : String) : String :=
  service ++ String.singleton (Char.ofNat 0) ++ epIdx

-- The service, the index and the endpoint of a sample that has all three.
def epInfoOf (s : MetricSample) : Option (String × String × String) := do
  let service ← s.labels.get? "service"
  let epIdx ← s.labels.get? "ep_idx"
  let ep ← s.labels.get? "ep"
  return (service, epIdx, ep)

def addEpInfo (index : EpJoinIndex) (s : MetricSample) : EpJoinIndex :=
  match epInfoOf s with
  | none                      => index
  | some (service, epIdx, ep) =>
    let key := keyOf service epIdx
    match index.get? key with
    | none             => index.set key <| .ok ep
    | some (.ok other) => if other = ep then index else index.set key .ambiguous
    | some _           => index

def buildEpJoinIndex (snapshot : MetricsSnapshot) : EpJoinIndex :=
  (selectSamples snapshot epInfoFamily).foldl addEpInfo .empty

def joinEp (index : EpJoinIndex) (service epIdx : String) : EpJoinResult :=
  (index.get? <| keyOf service epIdx).getD .unknown

end Observability
