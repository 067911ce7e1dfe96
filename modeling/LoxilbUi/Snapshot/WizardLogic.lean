import LoxilbUi.Library.JsNumeral
import LoxilbUi.Library.JsValue

-- components/snapshot/wizardLogic.ts: what the restore wizard reads out of an answer of OAM.

namespace Snapshot

-- `gatewayResponse` is the body the gateway answered OAM with, whatever it is.
structure RestoreOutcome where
  gatewayStatus        : Int
  gatewayResponse      : JsValue
  components           : Option (List String)
  preRestoreSnapshotId : Option String

-- Only an object has a `mode` that counts.
def asRestoreResult (body : JsValue) : Option JsValue :=
  match body.get "mode" with
  | .string "dry-run" | .string "commit" => some body
  | _                                    => none

-- `(errors?.length ?? 0) > 0`
def isNonempty (errors : JsValue) : Bool :=
  match errors with
  | .array items => items ≠ []
  | .string text => text ≠ ""
  | .object _    => JsNumber.lt 0 ((errors.get "length").orElse (.number 0)).toNumber
  | _            => false

def hasErrors (gw : JsValue) : Bool :=
  isNonempty (gw.get "errors")

def isBusyStatus (status : Option Int) : Bool :=
  status = some 409 || status = some 503

inductive DryRunVerdict
  | pending
  | oamError
  | pass
  | refused
  | busy
  | unreadable
  | otherDomains
  deriving DecidableEq, Repr

-- `seen.add(name)` for the name of a row of the plan.
def addDomain (seen : List String) (item : JsValue) : List String :=
  match item.get "domain" with
  | .string name => if name ≠ "" && name ∉ seen then seen ++ [name] else seen
  | _            => seen

def planDomains (outcome : Option RestoreOutcome) : List String :=
  match outcome.bind (asRestoreResult ·.gatewayResponse) with
  | some gw =>
    match gw.get "plan" with
    | .array plan => plan.foldl addDomain []
    | _           => []
  | none => []

inductive RestoreSelection
  | all
  | some (components : List String)
  | none
  deriving DecidableEq

def restoreSelection (domains checked : List String) : RestoreSelection :=
  if domains = [] then .all
  else
    let components := domains.filter (· ∈ checked)
    if components = [] then .none
    else if components.length = domains.length then .all
    else .some components

def sameSet (a b : List String) : Bool :=
  a.length = b.length && a.all (· ∈ b)

def answersSelection (outcome : Option RestoreOutcome) (sent : Option (List String)) : Bool :=
  match sent with
  | none      => true
  | some sent =>
    sameSet ((outcome.bind (·.components)).getD []) sent && sameSet (planDomains outcome) sent

def isPlan : JsValue → Bool
  | .array _ => true
  | _        => false

def classifyDryRun (outcome : Option RestoreOutcome) (oamError : Option String)
    (sent : Option (List String)) : DryRunVerdict :=
  match oamError, outcome with
  | some _, _          => .oamError
  | none, none         => .pending
  | none, some outcome =>
    match asRestoreResult outcome.gatewayResponse with
    | none =>
      if isBusyStatus outcome.gatewayStatus then .busy
      else if outcome.gatewayStatus = 200 then .unreadable
      else .refused
    | some gw =>
      if outcome.gatewayStatus ≠ 200 || (gw.get "compatible").strictEq (.bool false) ||
          hasErrors gw then .refused
      else
        let passed := (gw.get "mode").strictEq (.string "dry-run") &&
          (gw.get "compatible").strictEq (.bool true) &&
          (gw.get "result").strictEq (.string "ok") && isPlan (gw.get "plan")
        if !passed then .unreadable
        else if answersSelection outcome sent then .pass
        else .otherDomains

def canContinueToCommit (outcome : Option RestoreOutcome) (oamError : Option String)
    (loading : Bool) (sent : Option (List String)) : Bool :=
  !loading && classifyDryRun outcome oamError sent = .pass

inductive CommitBranch
  | oamError
  | ok
  | okNotDurable
  | okDurabilityUnreported
  | rolledBack
  | rollbackFailed
  | incomplete
  | unconfirmed
  deriving DecidableEq, Repr

def commitChangedInstance : CommitBranch → Bool
  | .ok | .okNotDurable | .okDurabilityUnreported | .rollbackFailed => true
  | _                                                              => false

def classifyCommitResult (outcome : Option RestoreOutcome) (oamError : Option String) :
    CommitBranch :=
  if oamError.isSome then .oamError
  else
    let status := outcome.map (·.gatewayStatus)
    match outcome.bind (asRestoreResult ·.gatewayResponse) with
    | none    => if status = some 400 || isBusyStatus status then .incomplete else .unconfirmed
    | some gw =>
      let result := gw.get "result"
      if result.strictEq (.string "ROLLBACK-FAILED") then .rollbackFailed
      else if !(gw.get "mode").strictEq (.string "commit") then .unconfirmed
      else if result.strictEq (.string "ok") && status = some 200 then
        if (gw.get "persisted").strictEq (.bool true) then .ok
        else if (gw.get "persisted").strictEq (.bool false) then .okNotDurable
        else .okDurabilityUnreported
      else if result.strictEq (.string "rolled-back") && status = some 500 then .rolledBack
      else if !result.truthy && status = some 400 then .incomplete
      else .unconfirmed

section Gate

-- What OAM says it forwarded, with nothing for a list left out.
def RestoreOutcome.reported (o : RestoreOutcome) : List String :=
  o.components.getD []

-- A row of the gateway's plan is about the domain.
def RestoreOutcome.Plans (o : RestoreOutcome) (domain : String) : Prop :=
  ∃ plan item, o.gatewayResponse.get "plan" = .array plan ∧ item ∈ plan ∧
    item.get "domain" = .string domain ∧ domain ≠ ""

-- The gateway's half of the gate: a dry-run that passed, and was planned for the domains sent.
structure RestoreOutcome.Passes (o : RestoreOutcome) (sent : Option (List String)) : Prop where
  status     : o.gatewayStatus = 200
  mode       : o.gatewayResponse.get "mode" = .string "dry-run"
  compatible : o.gatewayResponse.get "compatible" = .bool true
  result     : o.gatewayResponse.get "result" = .string "ok"
  plan       : ∃ plan, o.gatewayResponse.get "plan" = .array plan
  errors     : hasErrors o.gatewayResponse = false
  planned    : ∀ domains, sent = some domains → ∀ d, o.Plans d ↔ d ∈ domains

-- The gate before a configuration wipe: nothing is loading, the dry-run passed for the domains sent,
-- and OAM reports to have forwarded these and no others.
structure GateOpen (outcome : Option RestoreOutcome) (oamError : Option String) (loading : Bool)
    (sent : Option (List String)) : Prop where
  settled  : loading = false
  answered : oamError = none
  passed   : ∃ o, outcome = some o ∧ o.Passes sent ∧
    ∀ domains, sent = some domains → ∀ d, d ∈ o.reported ↔ d ∈ domains

-- A list that OAM reports for a dry-run that passed for the domains sent names some of these, each
-- once; or it repeats one, names fewer domains, and its length gives it away.
def CountsOut (outcome : Option RestoreOutcome) (oamError : Option String) (loading : Bool)
    (sent : Option (List String)) : Prop :=
  ∀ o domains, loading = false → oamError = none → outcome = some o → o.Passes sent →
    sent = some domains → o.reported ⊆ domains →
      o.reported.Nodup ∨ o.reported.length ≠ domains.length ∧ ¬domains ⊆ o.reported

end Gate

end Snapshot
