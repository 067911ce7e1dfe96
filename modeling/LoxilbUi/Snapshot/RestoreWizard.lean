import LoxilbUi.Library.JsString
import LoxilbUi.Library.Run
import LoxilbUi.Snapshot.WizardLogic

-- components/snapshot/RestoreWizard.tsx, with request_restore_snapshot of connector/oam/snapshotApi.ts
-- and the `open` its parent holds: the hooks and refs of one wizard, what was rendered of them last,
-- and the requests it has sent. A handler acts on what was last rendered, so any number of handlers
-- and answers may come before the next render, and also between a render and the effect it calls for.

namespace Snapshot

-- `res.status === 'unknown'` apart, the wizard only tells a confirmed call from any other.
inductive RestoreCallResult
  | confirmed (outcome : RestoreOutcome)
  | refused (unknown : Bool) (text : String)

-- `ref` tells two targets apart that were set at different times.
structure RestoreTarget where
  ref        : Nat
  snapshotId : String
  undo       : Option (Option (List String))

-- `ref` names the list that `components` is: the one of a certain render.
structure PickedDryRun where
  ref        : Nat
  components : List String
  loading    : Bool
  outcome    : Option RestoreOutcome
  error      : Option String

inductive WizardStep
  | dryRun
  | confirm
  | committing
  | result
  deriving DecidableEq, Repr

-- `resetFor` is no hook: it tells the target for which the effect last reset the others.
structure Hooks where
  target        : RestoreTarget
  step          : WizardStep
  dryRunLoading : Bool
  dryRunOutcome : Option RestoreOutcome
  dryRunError   : Option String
  checked       : List String
  picked        : Option PickedDryRun
  confirmText   : String
  commitOutcome : Option RestoreOutcome
  commitError   : Option String
  commitUnknown : Bool
  sent          : Option (List String)
  undoLoading   : Bool
  undoError     : Option String
  resetFor      : Option Nat

-- What a render saw: the hooks, the `open` of the parent, and the number of the render.
structure View where
  hooks : Hooks
  isOpen : Bool
  ref   : Nat

namespace View

def fullPass (v : View) : Bool :=
  canContinueToCommit v.hooks.dryRunOutcome v.hooks.dryRunError v.hooks.dryRunLoading none

def domains (v : View) : List String :=
  if v.fullPass then planDomains v.hooks.dryRunOutcome else []

def selection (v : View) : RestoreSelection :=
  restoreSelection v.domains v.hooks.checked

def components (v : View) : Option (List String) :=
  match v.selection with
  | .some components => some components
  | _                => none

def pickedNow (v : View) : Option PickedDryRun :=
  match v.components, v.hooks.picked with
  | some components, some picked =>
    if JsString.joinComma picked.components = JsString.joinComma components then some picked
    else none
  | _, _ => none

def needsPickedDryRun (v : View) : Bool :=
  v.fullPass && v.components.isSome && v.pickedNow.isNone

def canContinue (v : View) : Bool :=
  if v.selection = .all then v.fullPass
  else v.pickedNow.any fun p => canContinueToCommit p.outcome p.error p.loading p.components

-- The answer that the wizard goes by for what is ticked now.
def judged (v : View) : Option RestoreOutcome :=
  if v.selection = .all then v.hooks.dryRunOutcome else v.pickedNow.bind (·.outcome)

def canUndo (v : View) : Bool :=
  (v.hooks.commitOutcome.bind (·.preRestoreSnapshotId)).any (· ≠ "") &&
    commitChangedInstance (classifyCommitResult v.hooks.commitOutcome v.hooks.commitError)

-- The dialog is on the screen for a snapshot that has an id, and lets the operator go on: with
-- "Continue to Restore" or, once the name is typed, with "Restore Now".
def offers (v : View) : Bool :=
  v.isOpen && v.hooks.target.snapshotId ≠ "" &&
    (v.hooks.step = .dryRun || v.hooks.step = .confirm) && v.canContinue

end View

-- The code that waits for an answer, with the values it closed over.
inductive Continuation
  | whole (run : Nat) (wanted : Option (List String))
  | picked (run : Nat) (ref : Nat) (mine : List String)
  | commit (run : Nat)
  | undo (sent : Option (List String))

-- What the wizard does that the outside sees: a snapshot becomes its target, its state is reset, a
-- restore request is sent, and the answer to a request arrives.
inductive Entry
  | targeted (snapshotId : String)
  | reset
  | dryRun (request : Nat) (snapshotId : String) (components : Option (List String))
  | commit (snapshotId : String) (components : Option (List String))
  | answered (request : Nat) (res : RestoreCallResult)

-- `hooks` has every update that was queued, and `urgent` those of clicks and of what was rendered
-- before them, since a render for a click leaves alone what effects and answers have queued. `due`
-- is that the effect of the last render has not run. `waiting` holds the continuation of each
-- request, and none once it has run; `trail` is what has happened so far, oldest first.
structure Wizard where
  instanceName   : String
  hooks          : Hooks
  urgent         : Hooks
  isOpen         : Bool
  view           : View
  due            : Bool
  committed      : Bool
  commitInFlight : Bool
  run            : Nat
  waiting        : List (Option Continuation)
  trail          : List Entry

inductive Event
  | toggle (domain : String)
  | selectAll (selected : Bool)
  | pickedDryRun
  | toConfirm
  | confirmText (text : String)
  | commit
  | undo
  | setOpen (isOpen : Bool)
  | answer (request : Nat) (res : RestoreCallResult)
  | undoAnswer (request : Nat) (res : Except String String)
  | render (urgent : Bool)
  | effects

namespace Wizard

-- The hooks as the effect leaves them, but for the target and an undo that is under way.
def resetHooks (target : RestoreTarget) (h : Hooks) : Hooks :=
  { h with
    step          := .dryRun
    dryRunLoading := true
    dryRunOutcome := none
    dryRunError   := none
    checked       := []
    picked        := none
    confirmText   := ""
    commitOutcome := none
    commitError   := none
    commitUnknown := false
    sent          := none
    undoError     := none
    resetFor      := some target.ref }

-- What a click sets.
def set (w : Wizard) (update : Hooks → Hooks) : Wizard :=
  { w with hooks := update w.hooks, urgent := update w.urgent }

-- `request_restore_snapshot`. An empty selection is answered without being sent.
def request (w : Wizard) (c : Continuation) (entry : Nat → Entry) (components : Option (List String)) :
    Wizard :=
  { w with
    waiting := w.waiting ++ [some c]
    trail   := if components = some [] then w.trail else w.trail ++ [entry w.waiting.length] }

-- The effect on `[open, target]`, as the last render had them.
def runEffect (w : Wizard) : Wizard :=
  let target := w.view.hooks.target
  let w := { w with due := false, run := w.run + 1 }
  if !w.view.isOpen || target.snapshotId = "" then w
  else
    let w := { w with
      hooks          := resetHooks target w.hooks
      commitInFlight := false
      trail          := w.trail ++ [Entry.reset] }
    w.request (.whole w.run (target.undo.bind id)) (.dryRun · target.snapshotId none) none

def nextView (w : Wizard) (urgent : Bool) : View where
  hooks  := if urgent then w.urgent else w.hooks
  isOpen := w.isOpen
  ref    := w.view.ref + 1

-- The effect is due when what it depends on has changed. It always runs before the next render.
def render (w : Wizard) (urgent : Bool) : Option Wizard :=
  if w.due then none
  else
    let v := w.nextView urgent
    let retargeted := v.hooks.target.ref ≠ w.view.hooks.target.ref
    some { w with
      urgent := v.hooks
      view   := v
      due    := retargeted || v.isOpen ≠ w.view.isOpen
      trail  :=
        if retargeted then w.trail ++ [Entry.targeted v.hooks.target.snapshotId] else w.trail }

def mount (instanceName snapshotId : String) (isOpen : Bool) : Wizard :=
  let hooks : Hooks := {
    target        := { ref := 0, snapshotId, undo := none }
    step          := .dryRun
    dryRunLoading := false
    dryRunOutcome := none
    dryRunError   := none
    checked       := []
    picked        := none
    confirmText   := ""
    commitOutcome := none
    commitError   := none
    commitUnknown := false
    sent          := none
    undoLoading   := false
    undoError     := none
    resetFor      := none }
  { instanceName, hooks, isOpen
    urgent         := hooks
    view           := { hooks, isOpen, ref := 0 }
    due            := true
    committed      := false
    commitInFlight := false
    run            := 0
    waiting        := []
    trail          := [.targeted snapshotId] }

def handleToggle (w : Wizard) (domain : String) : Wizard :=
  w.set fun h => { h with checked :=
    if domain ∈ h.checked then h.checked.filter (· ≠ domain) else h.checked ++ [domain] }

def handlePickedDryRun (w : Wizard) : Wizard :=
  let v := w.view
  match v.components with
  | none            => w
  | some components =>
    if v.hooks.target.snapshotId = "" then w
    else
      let picked : PickedDryRun := {
        ref := v.ref, components, loading := true, outcome := none, error := none }
      (w.set fun h => { h with picked := some picked }).request (.picked w.run v.ref components)
        (.dryRun · v.hooks.target.snapshotId (some components)) (some components)

def handleCommit (w : Wizard) : Wizard :=
  let v := w.view
  if v.hooks.target.snapshotId = "" || w.commitInFlight || !v.canContinue then w
  else
    let w := { w with commitInFlight := true, committed := true }
    (w.set fun h => { h with step := .committing, sent := v.components }).request (.commit w.run)
      (fun _ => .commit v.hooks.target.snapshotId v.components) v.components

def handleUndo (w : Wizard) : Wizard :=
  { w.set fun h => { h with undoLoading := true, undoError := none } with
    waiting := w.waiting ++ [some <| .undo w.view.hooks.sent] }

-- The continuation of a restore request.
def receive (w : Wizard) (c : Continuation) (res : RestoreCallResult) : Wizard :=
  match c with
  | .whole run wanted =>
    if run ≠ w.run then w
    else
      let w := { w with hooks.dryRunLoading := false }
      match res with
      | .confirmed outcome =>
        let listed := planDomains outcome
        { w with
          hooks.dryRunOutcome := some outcome
          hooks.checked       := match wanted with
            | some wanted => listed.filter (· ∈ wanted)
            | none        => listed }
      | .refused _ text => { w with hooks.dryRunError := some text }
  | .picked run ref mine =>
    if run ≠ w.run then w
    else
      let picked := match res with
        | .confirmed outcome =>
          { ref, components := mine, loading := false, outcome := some outcome, error := none }
        | .refused _ text =>
          { ref, components := mine, loading := false, outcome := none, error := some text }
      { w with hooks.picked :=
          if w.hooks.picked.any (·.ref = ref) then some picked else w.hooks.picked }
  | .commit run =>
    if run ≠ w.run then w
    else
      match res with
      | .confirmed outcome     =>
        { w with hooks.commitOutcome := some outcome, hooks.step := .result }
      | .refused unknown text =>
        { w with
          hooks.commitUnknown := unknown
          hooks.commitError   := some text
          hooks.step          := .result }
  | .undo _ => w

def answer (w : Wizard) (i : Nat) (res : RestoreCallResult) : Option Wizard :=
  match w.waiting[i]? with
  | some (some (.undo _)) | some none | none => none
  | some (some c) =>
    some <| { w with
      waiting := w.waiting.set i none
      trail   := w.trail ++ [Entry.answered i res] }.receive c res

-- The continuation of `query_get_snapshot`: the id of the snapshot that was read, or why not.
def undoAnswer (w : Wizard) (i : Nat) (res : Except String String) : Option Wizard :=
  match w.waiting[i]? with
  | some (some (.undo sent)) =>
    let w := { w with waiting := w.waiting.set i none, hooks.undoLoading := false }
    match res with
    | .ok id      =>
      if id = "" then some { w with hooks.undoError := some "The answer holds no snapshot." }
      else some { w with hooks.target := {
        ref := w.hooks.target.ref + 1, snapshotId := id, undo := some sent } }
    | .error text => some { w with hooks.undoError := some text }
  | _ => none

-- A control can be used while the dialog shows it, as the last render had it.
def shows (w : Wizard) : Event → Bool
  | .toggle _ | .selectAll _ => w.view.isOpen && w.view.hooks.step = .dryRun
  | .pickedDryRun            =>
      w.view.isOpen && w.view.hooks.step = .dryRun && w.view.needsPickedDryRun
  | .toConfirm               => w.view.isOpen && w.view.hooks.step = .dryRun &&
      !w.view.needsPickedDryRun && w.view.canContinue
  | .confirmText _           => w.view.isOpen && w.view.hooks.step = .confirm
  | .commit                  => w.view.isOpen && w.view.hooks.step = .confirm &&
      w.view.hooks.confirmText = w.instanceName && w.view.canContinue
  | .undo                    => w.view.isOpen && w.view.hooks.step = .result && w.view.canUndo &&
      !w.view.hooks.undoLoading
  | _                        => true

def step (w : Wizard) (e : Event) : Option Wizard :=
  if !w.shows e then none
  else
    match e with
    | .toggle domain      => some <| w.handleToggle domain
    | .selectAll selected =>
      some <| w.set fun h => { h with checked := if selected then w.view.domains else [] }
    | .pickedDryRun       => some w.handlePickedDryRun
    | .toConfirm          => some <| w.set fun h => { h with step := .confirm }
    | .confirmText text   => some <| w.set fun h => { h with confirmText := text }
    | .commit             => some w.handleCommit
    | .undo               => some w.handleUndo
    | .setOpen isOpen     => some { w with isOpen }
    | .answer i res       => w.answer i res
    | .undoAnswer i res   => w.undoAnswer i res
    | .render urgent      => w.render urgent
    | .effects            => if w.due then some w.runEffect else none

-- A render that lets the operator go on shows what was reset for its target.
def OffersReset (w : Wizard) : Event → Bool
  | .render urgent =>
      let v := w.nextView urgent
      !v.offers || v.hooks.resetFor = some v.hooks.target.ref
  | _              => true

end Wizard

-- Since the snapshot last became the target, its dry-run for `components` was sent and has been
-- answered with `outcome`.
def DryRunAnswered (trail : List Entry) (snapshotId : String) (components : Option (List String))
    (outcome : RestoreOutcome) : Prop :=
  ∃ before between after i,
    trail = before ++ .targeted snapshotId :: (between ++ .dryRun i snapshotId components :: after) ∧
    (∀ id, .targeted id ∉ between ++ after) ∧ .answered i (.confirmed outcome) ∈ after

def Verified (trail : List Entry) (snapshotId : String) (components : Option (List String))
    (outcome : RestoreOutcome) : Prop :=
  DryRunAnswered trail snapshotId components outcome ∧
    classifyDryRun (some outcome) none components = .pass

def Entry.isCommit : Entry → Bool
  | commit .. => true
  | _         => false

structure Protocol (w : Wizard) : Prop where
  commit_verified  : ∀ before id components after, w.trail = before ++ .commit id components :: after →
    ∃ outcome, Verified before id components outcome
  commit_nonempty  : ∀ id, .commit id (some []) ∉ w.trail
  commit_once      : ∀ before between after, w.trail = before ++ between ++ after →
    .reset ∉ between → between.countP Entry.isCommit ≤ 1
  enabled_verified : w.view.offers = true → ∃ outcome, w.view.judged = some outcome ∧
    Verified w.trail w.view.hooks.target.snapshotId w.view.components outcome

-- The plans that the gateway answers with name no domain with a comma.
def Event.CommaFree : Event → Prop
  | answer _ (.confirmed outcome) => ∀ d ∈ planDomains (some outcome), ',' ∉ d.toList
  | _                             => True

end Snapshot
