import LoxilbUi.Hooks.MetricsSnapshot
import LoxilbUi.Observability.Theorems.Retention

-- What the hook returns after any run: the last observations of one instance, read with one flavor, since
-- it was last asked for another.

namespace MetricsSnapshot

open Capabilities Observability OpResultAdapter RecentHistory

variable {clock : Clock} {start target target' : Target} {events : List Event} {e : Event} {st : State} {ring : Ring}
variable {entries : List Snapshot} {snapshot : Option Snapshot} {s : Snapshot}

section Key

theorem colon_not_mem_toText {n : JsNumber} : ':' ∉ n.toText.toList := by
  intro h
  obtain h | h := JsNumber.toText_chars h
  · exact absurd h <| by simp [Decimal.IsNumeralChar, Char.isDigit]
  · exact absurd h (by decide)

theorem flavorText_injective : Function.Injective flavorText := by
  intro a b h
  cases a <;> cases b <;> first | rfl | exact absurd h (by decide)

theorem ringKey_injective : Function.Injective ringKey := by
  rintro ⟨a, f⟩ ⟨b, g⟩ h
  have hid (id : Option JsNumber) (f : InstanceFlavor) :
      (ringKey (id, f)).toList.takeWhile (· ≠ ':') = ((id.map JsNumber.toText).getD "").toList := by
    have hc : ∀ c ∈ ((id.map JsNumber.toText).getD "").toList, decide (c ≠ ':') = true := by
      rintro c hc
      cases id
      case none   => cases hc
      case some n =>
        refine decide_eq_true fun he => ?_
        exact colon_not_mem_toText <| he ▸ hc
    rw [ringKey, String.append_assoc, String.toList_append, List.takeWhile_append_of_pos hc, String.toList_append]
    simp
  have hi := String.toList_inj.mp <| (hid a f).symm.trans <| (congrArg (·.toList.takeWhile (· ≠ ':')) h).trans (hid b g)
  have hf : flavorText f = flavorText g := by
    rw [ringKey, ringKey, hi] at h
    exact String.append_right_inj _ |>.mp h
  obtain rfl := flavorText_injective hf
  cases a <;> cases b
  case none.none => rfl
  case some.some => rw [JsNumber.toText_injective hi]
  all_goals
    rw [Option.map_none, Option.map_some, Option.getD_none, Option.getD_some] at hi
  case none.some => exact absurd hi.symm JsNumber.toText_ne_empty
  case some.none => exact absurd hi JsNumber.toText_ne_empty

end Key

-- Whether the later scrape is an observation of its own.
def OwnScrape (before after : Snapshot) : Prop :=
  before.receivedAtMs ≠ after.receivedAtMs

instance : DecidableRel OwnScrape :=
  fun _ _ => inferInstanceAs (Decidable (_ ≠ _))

def distinct (snapshots : List Snapshot) : List Snapshot :=
  snapshots.destutter OwnScrape

theorem record_eq : record entries s =
    if Taken OwnScrape entries s then (entries ++ [s]).rtake snapshotRetention else entries := by
  rw [record, sliceEnd_eq_rtake _ (by decide)]
  cases h : entries.getLast?
  case none => simp [Taken, h]
  case some last => by_cases he : last.receivedAtMs = s.receivedAtMs <;> simp [Taken, OwnScrape, h, he]

-- The history with what a render brings.
def recordAll (entries : List Snapshot) : Option Snapshot → List Snapshot
  | none   => entries
  | some s => record entries s

theorem recordAll_distinct {snapshots : List Snapshot} :
    recordAll ((distinct snapshots).rtake snapshotRetention) snapshot =
      (distinct (snapshots ++ snapshot.toList)).rtake snapshotRetention := by
  cases snapshot
  case none   => rw [recordAll, Option.toList_none, List.append_nil]
  case some s =>
    rw [recordAll, record_eq, Option.toList_some, distinct, distinct]
    exact (rtake_destutter_concat (by decide) snapshots s).symm

-- What the ring has for a target.
def Ring.recorded (ring : Ring) (target : Target) : List Snapshot :=
  if ring.key = ringKey target then ring.entries else []

theorem render_history : (render ring target snapshot).history = recordAll (ring.recorded target) snapshot := by
  cases snapshot <;> rfl

theorem effect_key : (effect ring target snapshot).key = ringKey target := by
  by_cases h : ring.key = ringKey target <;> cases snapshot <;> simp [effect, h]

theorem effect_entries : (effect ring target snapshot).entries = recordAll (ring.recorded target) snapshot := by
  by_cases h : ring.key = ringKey target <;> cases snapshot <;> simp [effect, Ring.recorded, recordAll, h]

theorem recorded_effect : (effect ring target snapshot).recorded target' =
    if target = target' then recordAll (ring.recorded target) snapshot else [] := by
  rw [Ring.recorded, effect_key, effect_entries]
  simp only [ringKey_injective.eq_iff]

section Commits

-- What a render that came to the screen was about, and what there was of it.
def commitOf (st : State) : Event → Option (Target × Option Snapshot)
  | .committed target => some (target, st.cache target)
  | _                 => none

def commits (clock : Clock) : State → List Event → List (Target × Option Snapshot)
  | _, []      => []
  | st, e :: l => (commitOf st e).toList ++ commits clock (step clock st e) l

theorem cache_of_commitOf {p : Target × Option Snapshot} (h : commitOf st e = some p) : p.2 = st.cache p.1 := by
  cases e <;> cases h
  rfl

theorem commits_concat {l : List Event} :
    commits clock st (l ++ [e]) = commits clock st l ++ (commitOf (l.foldl (step clock) st) e).toList := by
  induction l generalizing st
  case nil         => simp [commits]
  case cons e l hi => rw [List.cons_append, commits, commits, hi, List.foldl_cons, List.append_assoc]

-- The snapshots of the renders for a target since the last render for another.
def observed (target : Target) (renders : List (Target × Option Snapshot)) : List Snapshot :=
  (renders.rtakeWhile (·.1 = target)).filterMap Prod.snd

theorem observed_concat {renders : List (Target × Option Snapshot)} :
    observed target (renders ++ [(target', snapshot)]) =
      if target' = target then observed target renders ++ snapshot.toList else [] := by
  rw [observed, List.rtakeWhile_concat]
  by_cases h : target' = target
  · cases snapshot <;> simp [h, observed]
  · simp [h]

theorem run_concat : run clock start (events ++ [e]) = step clock (run clock start events) e := by
  rw [run, List.foldl_concat, run]

theorem recorded_run : (run clock start events).ring.recorded target =
    (distinct <| observed target <| commits clock (.mounted start) events).rtake snapshotRetention := by
  induction events using List.reverseRecOn generalizing target
  case nil =>
    rw [run, List.foldl_nil, State.mounted, Ring.recorded, ite_self]
    rfl
  case append_singleton events e hi =>
    rw [run_concat, commits_concat, ← run]
    cases e
    case committed target' =>
      rw [commitOf, Option.toList_some, observed_concat, step, recorded_effect]
      by_cases h : target' = target
      · rw [if_pos h, if_pos h, hi, recordAll_distinct, h]
      · rw [if_neg h, if_neg h]
        rfl
    all_goals
      simp only [commitOf, Option.toList_none, List.append_nil]
      exact hi

end Commits

-- The history that a render returns is the end of all that was observed of its target in one stretch.
theorem view_history :
    ((run clock start events).view target).history =
      (distinct <| observed target <| commits clock (.mounted start) events ++
        [(target, (run clock start events).cache target)]).rtake snapshotRetention := by
  rw [State.view, render_history, recorded_run, recordAll_distinct, observed_concat, if_pos rfl]

-- What the shared query holds is what was fetched for its key.
def Keyed (cache : Target → Option Snapshot) : Prop :=
  ∀ target, ∀ s ∈ cache target, target = (some s.instanceId, s.flavor)

theorem keyed_step (h : Keyed st.cache) : Keyed (step clock st e).cache := by
  cases e
  case committed => exact h
  case fetched id flavor receivedAtMs resp =>
    intro target s hs
    simp only [step] at hs
    split at hs
    case isTrue ht  =>
      obtain rfl := Option.some.inj hs
      exact ht
    case isFalse ht => exact h target s hs
  case dropped target' =>
    intro target s hs
    simp only [step] at hs
    split at hs
    case isTrue  => cases hs
    case isFalse => exact h target s hs

theorem keyed_run : Keyed (run clock start events).cache := by
  induction events using List.reverseRecOn
  case nil =>
    intro target s hs
    cases hs
  case append_singleton events e hi =>
    rw [run_concat]
    exact keyed_step hi

theorem keyed_commits : ∀ p ∈ commits clock (.mounted start) events, ∀ s ∈ p.2, p.1 = (some s.instanceId, s.flavor) := by
  induction events using List.reverseRecOn
  case nil => simp [commits]
  case append_singleton events e hi =>
    rw [commits_concat, ← run]
    intro p hp s hs
    rcases List.mem_append.mp hp with hp | hp
    case inl => exact hi p hp s hs
    case inr =>
      rw [cache_of_commitOf <| Option.mem_toList.mp hp] at hs
      exact keyed_run p.1 s hs

-- What a page may rely on.
structure View.Sound (view : View) (target : Target) : Prop where
  -- Nothing of another instance, or of another flavor, is in it.
  snapshot : ∀ s ∈ view.snapshot, target = (some s.instanceId, s.flavor)
  history  : ∀ s ∈ view.history, target = (some s.instanceId, s.flavor)
  -- Two entries that follow each other are two observations.
  chain    : view.history.IsChain OwnScrape
  bounded  : view.history.length ≤ snapshotRetention
  -- The history ends with the observation that is shown.
  current  : ∀ s ∈ view.snapshot, ∃ last ∈ view.history.getLast?, last.receivedAtMs = s.receivedAtMs

theorem mem_observed {renders : List (Target × Option Snapshot)} (h : s ∈ observed target renders) :
    (target, some s) ∈ renders := by
  obtain ⟨⟨t, o⟩, hp, rfl⟩ := List.mem_filterMap.mp h
  obtain rfl : t = target := by simpa using List.mem_rtakeWhile_imp hp
  exact (List.rtakeWhile_suffix _ _).subset hp

theorem length_rtake_le {α : Type*} {l : List α} {n : Nat} : (l.rtake n).length ≤ n := by
  rw [List.rtake, List.length_drop]
  omega

theorem getLast?_record : ∃ last ∈ (record entries s).getLast?, last.receivedAtMs = s.receivedAtMs := by
  rw [record_eq]
  split
  case isTrue  =>
    refine ⟨s, ?_, rfl⟩
    rw [getLast?_rtake _ (by decide), List.getLast?_concat, Option.mem_def]
  case isFalse h => simpa [Taken, OwnScrape] using h

theorem view_sound : ((run clock start events).view target).Sound target where
  snapshot := keyed_run target
  history s hs := by
    rw [view_history] at hs
    have hs := mem_observed <| (List.destutter_sublist _ _).subset <| (List.drop_sublist _ _).subset hs
    rcases List.mem_append.mp hs with hs | hs
    · exact keyed_commits _ hs s rfl
    · have hs : some s = (run clock start events).cache target := by simpa using hs
      exact keyed_run target s hs.symm
  chain := by
    rw [view_history]
    exact isChain_rtake (List.isChain_destutter _ _) _
  bounded := by
    rw [view_history]
    exact length_rtake_le
  current s hs := by
    have hc : (run clock start events).cache target = some s := hs
    rw [State.view, render_history, hc]
    exact getLast?_record

end MetricsSnapshot
