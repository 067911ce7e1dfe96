import LoxilbUi.Library.LastWrite
import LoxilbUi.Observability.Snapshot

-- observability/policerAttachment.ts: which policers shape traffic, by the policy list and by the gauge.
-- `localeCompare` is the order of names that the platform gives.

namespace PolicerAttachment

open Observability

def policerAttached : String :=
  "loxilb_policer_attached"

def ident : String :=
  "ident"

-- A build older than the field leaves `attached` out.
structure PolicyAttribute where
  policyIdent : String
  attached    : Option Bool

inductive PolicerCorroboration
  | agreed
  | conflict
  | metricOnly
  | restOnly
  | unreported
  deriving DecidableEq

structure PolicerAttachmentRow where
  ident          : String
  attached       : Option Bool
  corroboration  : PolicerCorroboration
  listedInRest   : Option Bool
  metricAttached : Option Bool
  restAttached   : Option Bool
  deriving DecidableEq

inductive PolicerAttachmentVerdict
  | unknownConfiguration
  | noneConfigured
  | pendingAttachment
  | allAttached
  | incomplete
  deriving DecidableEq

inductive PolicerAttachmentReport
  | unavailable
  | ok (rows : List PolicerAttachmentRow) (verdict : PolicerAttachmentVerdict) (familyExported : Bool)
    (configured : Option Nat) (pending attached unknown : Nat)
  deriving DecidableEq

-- A series without a name is of no policer, and a value that is not finite is no answer.
def metricAttachment (snapshot : MetricsSnapshot) : Dict Bool :=
  (selectSamples snapshot policerAttached).foldl (fun byIdent sample =>
    match sample.labels.get? ident, sample.value with
    | some ident, .finite q => byIdent.set ident (q ≠ 0)
    | _, _                  => byIdent) .empty

def corroborate (metricAttached restAttached : Option Bool) : Option Bool × PolicerCorroboration :=
  match metricAttached, restAttached with
  | some m, some r => if m = r then (some m, .agreed) else (none, .conflict)
  | some m, none   => (some m, .metricOnly)
  | none, some r   => (some r, .restOnly)
  | none, none     => (none, .unreported)

def rank (row : PolicerAttachmentRow) : Nat :=
  match row.attached with
  | some false => 0
  | none       => 1
  | some true  => 2

def attachmentVerdict (policies : Option (List PolicyAttribute)) (rows : List PolicerAttachmentRow) :
    PolicerAttachmentVerdict :=
  match policies with
  | none          => .unknownConfiguration
  | some policies =>
    if policies.isEmpty then .noneConfigured
    else if rows.any (·.attached = some false) then .pendingAttachment
    else if rows.any (·.attached = none) then .incomplete
    else .allAttached

-- `new Set` of the names of the list and then of those of the gauge.
def unionOf (policies : Option (List PolicyAttribute)) (metric : Dict Bool) : List String :=
  ((policies.getD []).map (·.policyIdent) ++ metric.keys).reverse.dedup.reverse

def rowOf (policies : Option (List PolicyAttribute)) (metric : Dict Bool) (ident : String) :
    PolicerAttachmentRow :=
  let policy         := LastWrite.last PolicyAttribute.policyIdent ident <| policies.getD []
  let metricAttached := metric.get? ident
  let restAttached   := policy.bind (·.attached)
  let corroborated   := corroborate metricAttached restAttached
  {
    ident          := ident
    attached       := corroborated.1
    corroboration  := corroborated.2
    listedInRest   := policies.map fun _ => policy.isSome
    metricAttached := metricAttached
    restAttached   := restAttached
  }

-- The pending rows first, then the unknown ones, then by name.
def precedes (localeCompare : String → String → Ordering) (a b : PolicerAttachmentRow) : Bool :=
  rank a < rank b || (rank a = rank b && (localeCompare a.ident b.ident).isLE)

def policerAttachment (localeCompare : String → String → Ordering) (snapshot : Option MetricsSnapshot)
    (policies : Option (List PolicyAttribute)) : PolicerAttachmentReport :=
  match snapshot with
  | none          => .unavailable
  | some snapshot =>
    if snapshot.failure.isSome then .unavailable
    else
      let familyExported := (snapshot.families.get? policerAttached).isSome
      let metric := metricAttachment snapshot
      let rows := (unionOf policies metric).map (rowOf policies metric) |>.mergeSort
        (precedes localeCompare)
      .ok rows (attachmentVerdict policies rows) familyExported (policies.map List.length)
        (rows.countP (·.attached = some false)) (rows.countP (·.attached = some true))
        (rows.countP (·.attached = none))

end PolicerAttachment
