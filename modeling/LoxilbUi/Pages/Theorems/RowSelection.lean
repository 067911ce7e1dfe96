import LoxilbUi.Pages.RowSelection

-- When a selected row leads back to the item it was made of, and what is done to it is done to no other.

namespace RowSelection

open Common FirewallPolicy SnapshotPage

variable {α : Type*} {name : α → String} {hostname : String → Option String} {fwAttr : List FirewallRule}
variable {snapshots : List Snapshot} {snap s t : Snapshot} {i : Nat} {r : Request}

-- The names of two rows are not congruent numbers.
def Apart (name : α → String) (rows : List α) : Prop :=
  ∀ x ∈ rows, ∀ y ∈ rows, numeral (name x) ≡ numeral (name y) [MOD 2 ^ 32] → x = y

theorem find_hash_iff {rows : List α} : (∀ x ∈ rows,
    RowLookup.find (fun y => getStableHash <| name y) rows (getStableHash <| name x) = some x) ↔
      Apart name rows := by
  rw [RowLookup.find_iff]
  simp only [getStableHash_eq_iff, Apart]

section Firewall

def identityOf (hostname : String → Option String) (rule : FirewallRule) : String :=
  firewallIdentity hostname rule.ruleArguments

-- The rows of any listed rules lead back to these rules.
def ExactRules (hostname : String → Option String) (fwAttr : List FirewallRule) : Prop :=
  ∀ picks : List FirewallRule, (∀ rule ∈ picks, rule ∈ fwAttr) →
    FirewallPage.selectedItems hostname fwAttr (picks.map <| firewallRowId hostname) = picks

theorem exactRules_iff : ExactRules hostname fwAttr ↔ Apart (identityOf hostname) fwAttr :=
  RowLookup.filterMap_find_iff.trans find_hash_iff

-- A delete is then asked for the selected rules and no others.
theorem ExactRules.handleDelete (h : ExactRules hostname fwAttr) {picks : List FirewallRule}
    (hp : ∀ rule ∈ picks, rule ∈ fwAttr) :
    FirewallPage.handleDelete hostname fwAttr (picks.map <| firewallRowId hostname) =
      picks.map FirewallRule.ruleArguments := by
  rw [FirewallPage.handleDelete, h picks hp]

end Firewall

section Snapshots

def idOf (snap : Snapshot) : String :=
  snap.id.getD ""

-- The row of a listed snapshot leads back to it.
def ExactSnapshots (snapshots : List Snapshot) : Prop :=
  ∀ i snap, snapshots[i]? = some snap → selected snapshots [rowId i snap] = some snap

-- A snapshot without an id has a row id that is made of its place.
def Placed (snapshots : List Snapshot) : Prop :=
  ∀ (i : Nat) snap, snapshots[i]? = some snap → snap.id = none → numeral i.repr ≡ 0 [MOD 2 ^ 32]

theorem rowId_eq_iff : rowId i snap = getStableHash (idOf snap) ↔
    (snap.id = none → numeral i.repr ≡ 0 [MOD 2 ^ 32]) := by
  have h0 : numeral "" = 0 := rfl
  rw [rowId, idOf]
  cases snap.id
  case none   => simp [getStableHash_eq_iff, h0]
  case some v => simp

theorem exactSnapshots_iff : ExactSnapshots snapshots ↔ Apart idOf snapshots ∧ Placed snapshots := by
  have hsel (row : Nat) : selected snapshots [row] =
      RowLookup.find (fun s => getStableHash <| idOf s) snapshots row := rfl
  constructor
  case mp =>
    intro h
    have hrow {i snap} (hi : snapshots[i]? = some snap) : rowId i snap = getStableHash (idOf snap) :=
      (RowLookup.key_of_find <| h i snap hi).symm
    refine ⟨find_hash_iff.mp fun snap hs => ?_, fun i snap hi => rowId_eq_iff.mp <| hrow hi⟩
    obtain ⟨i, hi⟩ := List.getElem?_of_mem hs
    rw [← hrow hi, ← hsel]
    exact h i snap hi
  case mpr =>
    rintro ⟨ha, hp⟩ i snap hi
    rw [rowId_eq_iff.mpr <| hp i snap hi, hsel]
    exact find_hash_iff.mpr ha snap <| List.mem_of_getElem? hi

-- What a request acts on.
def Request.target : Request → Option String
  | .pin id _       => some id
  | .delete id      => some id
  | .restore target => target.id

-- A handler of the page sends the request.
def Starts (writesReady : Bool) (selected : Option Snapshot) (typed : String) (r : Request) : Prop :=
  handlePinToggle writesReady selected = some r ∨ SnapshotPage.handleDelete writesReady selected typed = some r ∨
    handleRestore writesReady selected = some r

-- It is for the snapshot that was selected.
theorem Starts.target {writesReady : Bool} {typed : String} (h : Starts writesReady (some snap) typed r) :
    Request.target r = snap.id := by
  obtain h | h | h := h
  · cases hid : snap.id <;> simp_all [handlePinToggle, Request.target]
    simp [← h.2]
  · cases hid : snap.id <;> simp_all [SnapshotPage.handleDelete, Request.target]
    simp [← h.2]
  · simp_all [handleRestore, Request.target]
    simp [← h.2]

end Snapshots

-- The rows of both pages lead back to the items they are made of just if no two names collide, and what is then done
-- from a row is done to its item.
theorem exact_iff_apart : (ExactRules hostname fwAttr ↔ Apart (identityOf hostname) fwAttr) ∧
    (ExactSnapshots snapshots ↔ Apart idOf snapshots ∧ Placed snapshots) ∧
    (ExactRules hostname fwAttr → ∀ picks : List FirewallRule, (∀ rule ∈ picks, rule ∈ fwAttr) →
      FirewallPage.handleDelete hostname fwAttr (picks.map <| firewallRowId hostname) =
        picks.map FirewallRule.ruleArguments) ∧
    (ExactSnapshots snapshots → ∀ i snap, snapshots[i]? = some snap → ∀ writesReady typed r,
      Starts writesReady (selected snapshots [rowId i snap]) typed r → Request.target r = snap.id) :=
  ⟨exactRules_iff, exactSnapshots_iff, fun h _ => h.handleDelete, fun h i snap hi _ _ _ hr => (h i snap hi ▸ hr).target⟩

def portRule (portName : String) : FirewallRule where
  ruleArguments := .ofList [("sourceIP", .string "10.0.0.0/8"), ("destinationIP", .string "0.0.0.0/0"),
    ("portName", .string portName)]
  opts          := .ofList [("drop", .bool true)]

def namedSnapshot (id : String) : Snapshot where
  id          := some id
  name        := some id
  pinned      := false
  checksum_ok := none

-- Two letters of which the first counts one more and the second 31 less.
theorem not_exact_swappedLetters :
    (¬∀ fwAttr, (fwAttr.map <| identityOf fun _ => none).Nodup → ExactRules (fun _ => none) fwAttr) ∧
      ¬∀ snapshots : List Snapshot, (snapshots.map Snapshot.id).Nodup → ExactSnapshots snapshots := by
  constructor
  · intro h
    have h := h [portRule "Aa", portRule "BB"] (by decide +kernel) [portRule "BB"] (by simp)
    have hh : firewallRowId (fun _ => none) (portRule "Aa") = firewallRowId (fun _ => none) (portRule "BB") := by
      decide +kernel
    simp only [FirewallPage.selectedItems, RowLookup.find, List.map_cons, List.map_nil, List.filterMap_cons,
      List.filterMap_nil, List.find?_cons, hh, decide_true, List.cons.injEq, and_true] at h
    have h : JsValue.string "Aa" = .string "BB" :=
      congrArg (fun rule => rule.ruleArguments.get "portName") h
    exact absurd (JsValue.string.inj h) (by decide)
  · intro h
    have h := h [namedSnapshot "Aa", namedSnapshot "BB"] (by decide) 1 (namedSnapshot "BB") rfl
    revert h
    decide +kernel

end RowSelection
