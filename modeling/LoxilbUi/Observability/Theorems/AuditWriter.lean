import LoxilbUi.Observability.AuditWriter
import Mathlib.Data.List.Induction
import Mathlib.Tactic.Linarith

-- What the track of the heartbeat says of all that has been observed, and when a stall is one.

namespace Observability

variable {observations : List Observation} {o : Observation} {track : Option HeartbeatTrack}
variable {t : HeartbeatTrack} {seen : List (ℚ × ℚ)} {value time now cadenceMs since : ℚ}

-- The finite value that a snapshot shows, with the time.
def finiteOf (o : Observation) : Option (ℚ × ℚ) :=
  match o.value with
  | some (.finite q) => some (q, o.receivedAtMs)
  | _                => none

def finiteValues (observations : List Observation) : List (ℚ × ℚ) :=
  observations.filterMap finiteOf

-- The values that are one and the same at the end, with what stands before them.
structure Suffix (t : HeartbeatTrack) (seen before after : List (ℚ × ℚ)) : Prop where
  split    : seen = before ++ (t.value, t.firstSeenAtMs) :: after
  constant : ∀ b ∈ after, b.1 = t.value
  longest  : ∀ b, before.getLast? = some b → b.1 ≠ t.value
  advance  : t.sawAdvance = true ↔ before ≠ []

-- The track is of the longest run of one value at the end.
def Describes : Option HeartbeatTrack → List (ℚ × ℚ) → Prop
  | none,   seen => seen = []
  | some t, seen => ∃ before after, Suffix t seen before after

section Track

theorem Describes.step (h : Describes track seen) :
    Describes (trackHeartbeat track (some <| .finite value) time) (seen ++ [(value, time)]) := by
  cases track
  case none =>
    obtain rfl : seen = [] := h
    exact ⟨[], [], rfl, by simp, by simp, by simp⟩
  case some t =>
    obtain ⟨before, after, hs⟩ := h
    rw [trackHeartbeat]
    split
    case isTrue he =>
      -- The value goes on.
      refine ⟨before, after ++ [(value, time)], by simp [hs.split], ?_, hs.longest, hs.advance⟩
      intro b hb
      obtain hb | hb := List.mem_append.mp hb
      · exact hs.constant b hb
      · rw [List.mem_singleton.mp hb, he]
    case isFalse hn =>
      refine ⟨seen, [], rfl, by simp, ?_, by simp [hs.split]⟩
      intro b hb
      -- The last value before is that of the track.
      have hl : b.1 = t.value := by
        rw [hs.split] at hb
        obtain rfl | ⟨init, last, rfl⟩ := List.eq_nil_or_concat after
        · simp only [List.getLast?_concat, Option.some.injEq] at hb
          rw [← hb]
        · rw [List.concat_eq_append, ← List.cons_append, ← List.append_assoc, List.getLast?_concat,
            Option.some.injEq] at hb
          exact hb ▸ hs.constant last (by simp)
      exact fun he => hn <| hl.symm.trans he

theorem trackOf_concat : trackOf (observations ++ [o]) =
    trackHeartbeat (trackOf observations) o.value o.receivedAtMs := by
  rw [trackOf, List.foldl_concat, trackOf]

theorem finiteValues_concat :
    finiteValues (observations ++ [o]) = finiteValues observations ++ (finiteOf o).toList := by
  rw [finiteValues, List.filterMap_append, finiteValues]
  cases h : finiteOf o <;> simp [h]

theorem describes_trackOf (observations : List Observation) :
    Describes (trackOf observations) (finiteValues observations) := by
  induction observations using List.reverseRecOn
  case nil => rfl
  case append_singleton observations o hi =>
    rw [trackOf_concat, finiteValues_concat]
    obtain ⟨v, time⟩ := o
    -- What is not finite leaves both as they are.
    match v with
    | some (.finite q)     => exact hi.step
    | none                 => exact (List.append_nil _).symm ▸ hi
    | some (.infinity neg) => exact (List.append_nil _).symm ▸ hi
    | some .nan            => exact (List.append_nil _).symm ▸ hi

end Track

section Liveness

-- The value is positive and has not changed since, for longer than two beats and one poll.
structure RealStall (observations : List Observation) (now cadenceMs since : ℚ) (value : ℚ) : Prop where
  positive : 0 < value
  long     : 2 * auditHeartbeatIntervalMs + cadenceMs < since
  same     : ∀ b ∈ finiteValues observations, now - b.2 < since → b.1 = value
  -- It was first seen then, and what had been observed before is as old.
  first    : ∃ before after, finiteValues observations = before ++ (value, now - since) :: after ∧
    (∀ b ∈ after, b.1 = value) ∧ ∀ b ∈ before, since ≤ now - b.2

theorem finiteValues_sorted (h : observations.Pairwise (·.receivedAtMs ≤ ·.receivedAtMs)) :
    (finiteValues observations).Pairwise (·.2 ≤ ·.2) := by
  refine h.filterMap _ fun o o' hle b hb b' hb' => ?_
  have htime {o : Observation} {b : ℚ × ℚ} (h : finiteOf o = some b) : b.2 = o.receivedAtMs := by
    rw [finiteOf] at h
    split at h
    · exact (Option.some.inj h) ▸ rfl
    · cases h
  rwa [htime hb, htime hb']

theorem stalled_inv (h : heartbeatLiveness track now cadenceMs = .stalled since) :
    ∃ t, track = some t ∧ 0 < t.value ∧ since = now - t.firstSeenAtMs ∧
      2 * auditHeartbeatIntervalMs + cadenceMs < since := by
  cases track
  case none => cases h
  case some t =>
    simp only [heartbeatLiveness] at h
    split at h
    case isTrue => cases h
    case isFalse hpos =>
      split at h
      case isTrue hlong =>
        obtain rfl := HeartbeatLiveness.stalled.inj h
        exact ⟨t, rfl, not_le.mp hpos, rfl, hlong⟩
      case isFalse => split at h <;> cases h

theorem advancing_inv (h : heartbeatLiveness track now cadenceMs = .advancing) :
    ∃ t, track = some t ∧ t.sawAdvance = true := by
  cases track
  case none => cases h
  case some t =>
    simp only [heartbeatLiveness] at h
    split at h
    case isTrue => cases h
    case isFalse =>
      split at h
      case isTrue => cases h
      case isFalse =>
        split at h
        case isTrue ha => exact ⟨t, rfl, ha⟩
        case isFalse   => cases h

theorem realStall (hs : observations.Pairwise (·.receivedAtMs ≤ ·.receivedAtMs))
    (h : heartbeatLiveness (trackOf observations) now cadenceMs = .stalled since) :
    ∃ value, RealStall observations now cadenceMs since value := by
  obtain ⟨t, ht, hpos, rfl, hlong⟩ := stalled_inv h
  have hd := describes_trackOf observations
  rw [ht] at hd
  obtain ⟨before, after, hsuf⟩ := hd
  have hsorted := finiteValues_sorted hs
  rw [hsuf.split, List.pairwise_append] at hsorted
  have hbefore : ∀ b ∈ before, b.2 ≤ t.firstSeenAtMs := fun b hb =>
    hsorted.2.2 b hb (t.value, t.firstSeenAtMs) <| by simp
  refine ⟨t.value, hpos, hlong, ?same, before, after, ?split, hsuf.constant, ?old⟩
  case same =>
    intro b hb hlt
    rw [hsuf.split] at hb
    obtain hb | hb := List.mem_append.mp hb
    · have := hbefore b hb
      linarith
    · obtain rfl | hb := List.mem_cons.mp hb
      · rfl
      · exact hsuf.constant b hb
  case split => rw [hsuf.split, sub_sub_cancel]
  case old =>
    intro b hb
    have := hbefore b hb
    linarith

theorem advanced (h : heartbeatLiveness (trackOf observations) now cadenceMs = .advancing) :
    ∃ b ∈ finiteValues observations, ∃ b' ∈ finiteValues observations, b.1 ≠ b'.1 := by
  obtain ⟨t, ht, ha⟩ := advancing_inv h
  have hd := describes_trackOf observations
  rw [ht] at hd
  obtain ⟨before, after, hsuf⟩ := hd
  obtain ⟨init, last, hl⟩ := (List.eq_nil_or_concat before).resolve_left <| hsuf.advance.mp ha
  refine ⟨last, by simp [hsuf.split, hl], (t.value, t.firstSeenAtMs), by simp [hsuf.split], ?_⟩
  exact hsuf.longest last <| by simp [hl]

-- The track is that of the last value, a stall is one, and an advance has been seen.
theorem heartbeat_real (hs : observations.Pairwise (·.receivedAtMs ≤ ·.receivedAtMs)) :
    Describes (trackOf observations) (finiteValues observations) ∧
      (∀ since, heartbeatLiveness (trackOf observations) now cadenceMs = .stalled since →
        ∃ value, RealStall observations now cadenceMs since value) ∧
      (heartbeatLiveness (trackOf observations) now cadenceMs = .advancing →
        ∃ b ∈ finiteValues observations, ∃ b' ∈ finiteValues observations, b.1 ≠ b'.1) :=
  ⟨describes_trackOf observations, fun _ => realStall hs, advanced⟩

-- A beat that goes on, a scrape that failed, and a beat that does not go on.
def heldBeat : List Observation :=
  [⟨some <| .finite 40, 0⟩, ⟨some <| .finite 70, 10000⟩, ⟨none, 20000⟩, ⟨some <| .finite 70, 90000⟩]

theorem heartbeat_real_held : ∃ value, RealStall heldBeat 90000 10000 80000 value :=
  (heartbeat_real (by decide +kernel)).2.1 80000 <| by decide +kernel

end Liveness

end Observability
