import Mathlib.Algebra.Order.Group.MinMax
import Mathlib.Data.Rat.Floor
import Mathlib.Tactic.Linarith
import LoxilbUi.Session.Theorems.SessionWatch

-- The timer for the token's own `exp`.

theorem msUntilProactiveLogout_nonneg {exp : Rat} {now : Int} :
    0 ≤ msUntilProactiveLogout exp now := by
  rw [msUntilProactiveLogout]
  exact le_max_left _ _

-- A wait, counted from `now`, ends at the schedule of the token or at once.
theorem add_msUntilProactiveLogout (exp : Rat) (now : Int) :
    now + msUntilProactiveLogout exp now = max (now : Rat) (exp - proactiveSkewMs) := by
  rw [msUntilProactiveLogout, ← max_add_add_left, add_zero, add_sub_cancel]

theorem timerDue_ge (now : Int) (delay : Rat) : now ≤ timerDue now delay := by
  simp only [timerDue]
  omega

-- 32 bits with a sign leave a wait that is not negative alone, or cut it short.
theorem bmod_ge_iff {n : Int} (h : 0 ≤ n) : n ≤ max 0 (n.bmod (2 ^ 32)) ↔ n < 2 ^ 31 := by
  constructor
  case mp =>
    intro hn
    have := @Int.bmod_lt n (2 ^ 32) (by decide)
    omega
  case mpr =>
    intro hn
    rw [Int.bmod_eq_of_le] <;> omega

theorem bmod_le {n : Int} (h : 0 ≤ n) : max 0 (n.bmod (2 ^ 32)) ≤ n := by
  have := @Int.bmod_lt n (2 ^ 32) (by decide)
  rcases Int.lt_or_le n (2 ^ 31) with hn | hn
  · rw [Int.bmod_eq_of_le] <;> omega
  · omega

-- A timer keeps the whole wait exactly when it is a number of milliseconds below 2 ^ 31.
theorem timerDue_keeps_iff {delay : Rat} (now : Int) (h : 0 ≤ delay) :
    now + delay ≤ (timerDue now delay : Rat) ↔ ∃ n : Int, delay = n ∧ n < 2 ^ 31 := by
  have hf : 0 ≤ delay.floor := Rat.le_floor_iff.mpr <| by simpa using h
  rw [timerDue, Int.cast_add, add_le_add_iff_left]
  constructor
  case mp =>
    intro hd
    have hn : delay.floor ≤ max 0 (delay.floor.bmod (2 ^ 32)) := by
      have := (Rat.floor_le delay).trans hd
      exact_mod_cast this
    have hle := bmod_le hf
    refine ⟨delay.floor, ?_, (bmod_ge_iff hf).mp hn⟩
    have : ((max 0 (delay.floor.bmod (2 ^ 32)) : Int) : Rat) ≤ delay.floor := by exact_mod_cast hle
    exact le_antisymm (hd.trans this) <| Rat.floor_le delay
  case mpr =>
    rintro ⟨n, rfl, hn⟩
    rw [Rat.floor_intCast] at hf ⊢
    exact_mod_cast (bmod_ge_iff hf).mpr hn

namespace SessionWatch

variable {s s₀ s' : Watch} {e : Event} {es : List Event} {t₀ : Int} {token : Option String} {exp : Rat}

namespace Watch

-- What the handlers of every other event leave alone.
structure Quiet (s s' : Watch) : Prop where
  token  : s'.token = s.token
  expiry : s'.expiryTimer = s.expiryTimer
  calls  : ∃ new, s'.calls = s.calls ++ new ∧ .terminateSession .expired ∉ new

namespace Quiet

theorem of_calls_eq (ht : s'.token = s.token) (he : s'.expiryTimer = s.expiryTimer)
    (hc : s'.calls = s.calls) : Quiet s s' :=
  ⟨ht, he, [], by simp [hc], by simp⟩

theorem refl : Quiet s s :=
  .of_calls_eq rfl rfl rfl

end Quiet

theorem endIdle_quiet : Quiet s s.endIdle := by
  simp only [endIdle]
  split
  case isTrue  => exact .refl
  case isFalse => exact ⟨rfl, rfl, [.requestLogout, .terminateSession .idle], by simp [call], by simp⟩

theorem scheduleIdle_quiet : Quiet s s.scheduleIdle := by
  have hn : Quiet s { s with idleTimer := none } := .of_calls_eq rfl rfl rfl
  simp only [scheduleIdle]
  split
  case isTrue => exact hn
  case isFalse =>
    split
    case isTrue  =>
      obtain ⟨ht, he, hc⟩ := @endIdle_quiet { s with idleTimer := none }
      exact ⟨ht, he, hc⟩
    case isFalse => exact .of_calls_eq rfl rfl rfl

theorem onActivity_quiet : Quiet s s.onActivity := by
  simp only [onActivity]
  split
  case isTrue => exact .refl
  case isFalse =>
    obtain ⟨ht, he, hc⟩ := @scheduleIdle_quiet { s with deadline := s.now + idleLimitMs }
    exact ⟨ht, he, hc⟩

theorem onVisible_quiet {visible : Bool} : Quiet s (s.onVisible visible) := by
  cases visible
  case true  => exact scheduleIdle_quiet
  case false => exact .refl

theorem onStorage_quiet {key : Option String} : Quiet s (s.onStorage key) := by
  simp only [onStorage]
  split
  case isTrue => exact .refl
  case isFalse =>
    split
    case h_1 | h_2 => exact ⟨rfl, rfl, [.terminateSession .logout], rfl, by simp⟩
    case h_3 =>
      split
      · exact ⟨rfl, rfl, [.reload], rfl, by simp⟩
      · exact .refl

end Watch

-- What one event does, as far as the proactive logout goes: only its timer calls for it, and under the
-- watched token only.
structure ExpiryStep (s : Watch) (e : Event) (s' : Watch) : Prop where
  token   : s'.token = s.token
  timer   : ∀ t, s'.expiryTimer = some t → s.expiryTimer = some t
  expired : ∀ new, s'.calls = s.calls ++ new → .terminateSession .expired ∈ new →
    (∃ t, s.expiryTimer = some t ∧ t ≤ e.now) ∧ s'.installed = some s.token

theorem ExpiryStep.of_quiet (h : Watch.Quiet s s') : ExpiryStep s e s' where
  token := h.token
  timer := by simp [h.expiry]
  expired new hc he := by
    obtain ⟨new', hc', hn⟩ := h.calls
    obtain rfl := List.append_cancel_left (hc.symm.trans hc')
    exact absurd he hn

theorem step_expiryStep (h : s.step e = some s') : ExpiryStep s e s' := by
  obtain ⟨-, hen, rfl⟩ := Watch.step_inv h
  obtain ⟨now, k⟩ := e
  clear h
  have hq {s'} (h : Watch.Quiet { s with now } s') : ExpiryStep s ⟨now, k⟩ s' :=
    .of_quiet ⟨h.token, h.expiry, h.calls⟩
  cases k <;> simp only [Watch.handle]
  case activity                 => exact hq Watch.onActivity_quiet
  case visibilitychange visible => exact hq Watch.onVisible_quiet
  case storage key              => exact hq Watch.onStorage_quiet
  case install token            => exact hq <| .of_calls_eq rfl rfl rfl
  case idleTimer =>
    obtain ⟨ht, he, hc⟩ := @Watch.scheduleIdle_quiet { s with now, idleTimer := none }
    exact hq ⟨ht, he, hc⟩
  case unmount =>
    refine ⟨rfl, by simp [Watch.unmount], fun new hc he => ?_⟩
    obtain rfl : new = [] := List.self_eq_append_right.mp hc
    simp at he
  case expiryTimer =>
    obtain ⟨t, ht, hle⟩ := Option.any_eq_true _ _ |>.mp hen
    simp only [Watch.onExpiry]
    split
    case isTrue ho =>
      refine ⟨rfl, by simp [Watch.call], fun _ _ _ => ⟨⟨t, ht, by simpa using hle⟩, ?_⟩⟩
      simp only [Watch.ownsSession, Bool.and_eq_true, beq_iff_eq] at ho
      exact ho.right
    case isFalse =>
      refine ⟨rfl, by simp, fun new hc he => ?_⟩
      obtain rfl : new = [] := List.self_eq_append_right.mp hc
      simp at he

-- The token a watcher was mounted on, and when its expiry timer is due, as long as that has not fired.
structure Armed (token : Option String) (due : Int) (s : Watch) : Prop where
  token : some s.token = token
  timer : ∀ t, s.expiryTimer = some t → t = due

theorem ExpiryStep.armed {due : Int} (h : ExpiryStep s e s') (ha : Armed token due s) :
    Armed token due s' where
  token     := h.token ▸ ha.token
  timer t i := ha.timer t <| h.timer t i

theorem mount_inv (h : Watch.mount token (some exp) t₀ = some s₀) :
    some s₀.token = token ∧ s₀.installed = token ∧ s₀.ended = false ∧ s₀.calls = [] ∧ s₀.now = t₀ ∧
      s₀.expiryTimer = some (timerDue t₀ <| msUntilProactiveLogout exp t₀) := by
  simp only [Watch.mount] at h
  split at h
  case h_1 | h_2 => contradiction
  case h_3 =>
    cases h
    have hr : ¬idleLimitMs ≤ 0 := by decide
    simp [Watch.scheduleIdle, Watch.ownsSession, hr]

theorem armed (hm : Watch.mount token (some exp) t₀ = some s₀) (r : Run Watch.step s₀ es s) :
    Armed token (timerDue t₀ <| msUntilProactiveLogout exp t₀) s := by
  obtain ⟨ht, -, -, -, -, hd⟩ := mount_inv hm
  refine r.invariant ⟨ht, ?_⟩ fun _ _ _ ha hs => (step_expiryStep hs).armed ha
  simp [hd]

theorem ExpiryStep.punctual (h : ExpiryStep s e s')
    (ha : Armed token (timerDue t₀ <| msUntilProactiveLogout exp t₀) s) (hk : TimerKeeps exp t₀) :
    Punctual token exp t₀ s e s' where
  due new hc he := by
    obtain ⟨⟨t, ht, hle⟩, -⟩ := h.expired new hc he
    rw [ha.timer t ht] at hle
    rw [← add_msUntilProactiveLogout]
    calc
      _ ≤ (timerDue t₀ (msUntilProactiveLogout exp t₀) : Rat) :=
        (timerDue_keeps_iff t₀ msUntilProactiveLogout_nonneg).mpr hk
      _ ≤ e.now := by exact_mod_cast hle
  watched new hc he := by
    obtain ⟨-, hi⟩ := h.expired new hc he
    exact hi.trans ha.token

-- The proactive logout is never early, on any run, exactly when the timer keeps the wait.
theorem punctual_iff_timerKeeps (hm : Watch.mount token (some exp) t₀ = some s₀) :
    (∀ es s e s', Run Watch.step s₀ es s → s.step e = some s' → Punctual token exp t₀ s e s') ↔
      TimerKeeps exp t₀ := by
  constructor
  case mp =>
    intro h
    obtain ⟨ht, hi, he, hc, hn, hd⟩ := mount_inv hm
    -- The timer comes round the moment it is due, with nothing in between.
    have hs : s₀.step ⟨timerDue t₀ (msUntilProactiveLogout exp t₀), .expiryTimer⟩ = some
        { s₀ with
          now         := timerDue t₀ (msUntilProactiveLogout exp t₀)
          expiryTimer := none
          calls       := [.terminateSession .expired] } := by
      simp [Watch.step, Watch.enabled, Watch.handle, Watch.onExpiry, Watch.ownsSession, Watch.call,
        hn, hd, hc, he, hi, ← ht, timerDue_ge]
    have hp := (h [] s₀ _ _ .nil hs).due [.terminateSession .expired] (by simp [hc]) (by simp)
    rw [← add_msUntilProactiveLogout] at hp
    exact (timerDue_keeps_iff t₀ msUntilProactiveLogout_nonneg).mp hp
  case mpr => exact fun hk _ _ _ _ r hs => (step_expiryStep hs).punctual (armed hm r) hk

section FarFuture

theorem punctual_iff_timerKeeps_lateWatch :
    (∀ es s e s', Run Watch.step lateWatch es s → s.step e = some s' →
      Punctual (some "watched") 28800000 0 s e s') ↔ TimerKeeps 28800000 0 :=
  punctual_iff_timerKeeps mount_lateWatch

-- A token of thirty days is given up as soon as it is watched.
def monthWatch : Watch :=
  { lateWatch with expiryTimer := some 0 }

theorem mount_monthWatch : Watch.mount (some "watched") (some 2592000000) 0 = some monthWatch := by
  decide +kernel

theorem not_punctual_monthWatch : ¬∀ token exp t₀ s₀ es s e s',
    Watch.mount token (some exp) t₀ = some s₀ → Run Watch.step s₀ es s → s.step e = some s' →
      Punctual token exp t₀ s e s' := by
  intro h
  have hp := (h _ _ _ _ [] monthWatch ⟨0, .expiryTimer⟩ _ mount_monthWatch .nil rfl).due _ rfl <| by simp
  exact absurd hp <| by decide +kernel

end FarFuture

end SessionWatch
