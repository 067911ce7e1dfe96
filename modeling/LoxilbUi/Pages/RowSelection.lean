import LoxilbUi.Library.RowLookup
import LoxilbUi.Types.FirewallPolicy

-- pages/traffic/FirewallPage.tsx and pages/maintenance/SnapshotPage.tsx, with the row ids of
-- FirewallTable.tsx and SnapshotTable.tsx: a selection holds row ids, and an action is for the items that
-- they lead back to.

namespace FirewallPage

open FirewallPolicy

variable (hostname : String → Option String)

def selectedItems (fwAttr : List FirewallRule) (selected_rows : List Nat) : List FirewallRule :=
  selected_rows.filterMap <| RowLookup.find (firewallRowId hostname) fwAttr

-- The rules that `handleDelete` asks the gateway to delete.
def handleDelete (fwAttr : List FirewallRule) (selected_rows : List Nat) : List JsObject :=
  (selectedItems hostname fwAttr selected_rows).map FirewallRule.ruleArguments

end FirewallPage

namespace SnapshotPage

structure Snapshot where
  id          : Option String
  name        : Option String
  pinned      : Bool
  checksum_ok : Option Bool
  deriving DecidableEq

-- `snapshot_to_row(snap, index).id`
def rowId (index : Nat) (snap : Snapshot) : Nat :=
  Common.getStableHash <| snap.id.getD index.repr

def selected (snapshots : List Snapshot) (selected_rows : List Nat) : Option Snapshot :=
  match selected_rows with
  | [row] => RowLookup.find (fun s : Snapshot => Common.getStableHash <| s.id.getD "") snapshots row
  | _     => none

inductive Request
  | pin (id : String) (pinned : Bool)
  | delete (id : String)
  -- The target of the restore wizard.
  | restore (target : Snapshot)

def handlePinToggle (writesReady : Bool) (selected : Option Snapshot) : Option Request := do
  let snap ← selected
  let id ← snap.id
  if writesReady && id ≠ "" then some <| .pin id !snap.pinned else none

-- `typed` is the name that the operator types to confirm.
def handleDelete (writesReady : Bool) (selected : Option Snapshot) (typed : String) : Option Request := do
  let snap ← selected
  let id ← snap.id
  let snapName := snap.name.getD ""
  if writesReady && id ≠ "" && !snap.pinned && snapName ≠ "" && typed = snapName then some <| .delete id
  else none

def handleRestore (writesReady : Bool) (selected : Option Snapshot) : Option Request := do
  let snap ← selected
  if writesReady && snap.checksum_ok ≠ some false then some <| .restore snap else none

end SnapshotPage
