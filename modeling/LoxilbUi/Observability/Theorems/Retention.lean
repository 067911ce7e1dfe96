import LoxilbUi.Library.RecentHistory
import LoxilbUi.Observability.Rates

-- The ring that the rates are read from is the end of the history without its second deliveries.

namespace Observability

variable {α : Type} {receivedAtMs : α → JsNumber} {ring points : List α} {point : α} {capacity : Nat}

-- Whether the second is an observation of its own.
def OwnReceipt (receivedAtMs : α → JsNumber) (before after : α) : Prop :=
  (receivedAtMs before).strictEq (receivedAtMs after) = false

instance : DecidableRel (OwnReceipt receivedAtMs) :=
  fun _ _ => inferInstanceAs (Decidable (_ = _))

-- All that has been observed, of any number of deliveries of one observation the first.
def historyOf (receivedAtMs : α → JsNumber) (points : List α) : List α :=
  points.destutter (OwnReceipt receivedAtMs)

def retained (receivedAtMs : α → JsNumber) (capacity : Nat) (points : List α) : List α :=
  points.foldl (fun ring point => pushRetained receivedAtMs ring point capacity) []

theorem sliceEnd_eq_rtake (l : List α) (h : 1 ≤ capacity) : sliceEnd l capacity = l.rtake capacity := by
  rw [sliceEnd, if_neg (by omega), List.rtake]

theorem pushRetained_eq (h : 1 ≤ capacity) :
    pushRetained receivedAtMs ring point capacity =
      if RecentHistory.Taken (OwnReceipt receivedAtMs) ring point then (ring ++ [point]).rtake capacity
      else ring := by
  rw [pushRetained]
  cases hl : ring.getLast?
  case none => simp [RecentHistory.Taken, hl, sliceEnd_eq_rtake _ h]
  case some last =>
    cases hs : (receivedAtMs last).strictEq (receivedAtMs point) <;>
    simp [RecentHistory.Taken, OwnReceipt, hl, hs, sliceEnd_eq_rtake _ h]

theorem pushRetained_rtake (h : 1 ≤ capacity) :
    pushRetained receivedAtMs ((historyOf receivedAtMs points).rtake capacity) point capacity =
      (historyOf receivedAtMs (points ++ [point])).rtake capacity := by
  rw [pushRetained_eq h, historyOf, historyOf, RecentHistory.destutter_concat]
  simp only [RecentHistory.taken_rtake h]
  split
  case isTrue  => exact RecentHistory.rtake_rtake_concat _ _ _
  case isFalse => rfl

theorem retained_eq_rtake (h : 1 ≤ capacity) :
    retained receivedAtMs capacity points = (historyOf receivedAtMs points).rtake capacity := by
  induction points using List.reverseRecOn
  case nil => simp [retained, historyOf]
  case append_singleton points point hi =>
    rw [retained, List.foldl_concat, ← retained, hi, pushRetained_rtake h]

theorem pushRetained_duplicate {last : α} (hl : last ∈ ring.getLast?)
    (hs : (receivedAtMs last).strictEq (receivedAtMs point) = true) :
    pushRetained receivedAtMs ring point capacity = ring := by
  rw [Option.mem_def] at hl
  simp only [pushRetained, hl, hs, if_pos]

theorem isChain_historyOf (points : List α) :
    (historyOf receivedAtMs points).IsChain (OwnReceipt receivedAtMs) :=
  List.isChain_destutter _ points

theorem retained_history (h : 1 ≤ capacity) :
    let ring := retained receivedAtMs capacity points
    ring = (historyOf receivedAtMs points).rtake capacity ∧
    (∀ point, ∀ last ∈ ring.getLast?, (receivedAtMs last).strictEq (receivedAtMs point) = true →
      pushRetained receivedAtMs ring point capacity = ring) ∧
    ring.IsChain (OwnReceipt receivedAtMs) := by
  refine ⟨retained_eq_rtake h, fun _ _ hl hs => pushRetained_duplicate hl hs, ?_⟩
  rw [retained_eq_rtake h]
  exact RecentHistory.isChain_rtake (isChain_historyOf points) capacity

-- Two of the deliveries are second ones.
def deliveries : List JsNumber :=
  [10, 20, 20, 30, 30].map fun m => .finite <| .ofInt m

theorem two_retained :
    1 ≤ 2 ∧ (retained id 2 deliveries).IsChain (OwnReceipt id) ∧
    retained id 2 deliveries = [20, 30].map fun m => .finite <| .ofInt m := by
  have h := @retained_history _ id deliveries 2 (by decide)
  exact ⟨by decide, h.right.right, by decide⟩

end Observability
