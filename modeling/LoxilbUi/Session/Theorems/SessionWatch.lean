import LoxilbUi.Session.SessionWatch

namespace SessionWatch

-- What one event does to a watcher whose token is installed, as far as the idle limit goes.
inductive WatchStep (s : Watch) (e : Event) (s' : Watch) : Prop
  | idled : e.kind ≠ .activity → s.ended = false → s.deadline ≤ e.now → s'.ended = true →
      s'.deadline = s.deadline →
      s'.calls = s.calls ++ [.requestLogout, .terminateSession .idle] → WatchStep s e s'
  | renewed : e.kind = .activity → s.ended = false → s'.ended = false →
      s'.deadline = e.now + idleLimitMs → s'.calls = s.calls → WatchStep s e s'
  | kept (new) : (e.kind = .activity → s.ended = true) →
      (e.kind.Returns → s.ended = true ∨ e.now < s.deadline ∨ ∃ r, .terminateSession r ∈ new) →
      s'.ended = s.ended → s'.deadline = s.deadline → s'.calls = s.calls ++ new →
      .terminateSession .idle ∉ new → WatchStep s e s'

variable {s s' : Watch} {e : Event} {es : List Event} {t₀ : Int}

namespace Watch

-- A schedule ends the session once the deadline has passed, and otherwise only arms the timer.
theorem scheduleIdle_cases (h : s.installed = some s.token) :
    (s.ended = false ∧ s.deadline ≤ s.now ∧ s.scheduleIdle =
      { s with
        idleTimer := none
        ended     := true
        calls     := s.calls ++ [.requestLogout, .terminateSession .idle] }) ∨
    ((s.ended = true ∨ s.now < s.deadline) ∧ ∃ t, s.scheduleIdle = { s with idleTimer := t }) := by
  cases he : s.ended
  case true => exact .inr ⟨.inl rfl, none, by simp [scheduleIdle, ownsSession, he]⟩
  case false =>
    by_cases hd : s.deadline ≤ s.now
    case pos =>
      have hd' : s.deadline - s.now ≤ 0 := by omega
      exact .inl ⟨rfl, hd, by simp [scheduleIdle, ownsSession, endIdle, call, he, h, hd']⟩
    case neg =>
      have hd' : ¬s.deadline - s.now ≤ 0 := by omega
      exact .inr ⟨.inr (by omega), _, by simp [scheduleIdle, ownsSession, he, h, hd']; rfl⟩

theorem onActivity_ended (h : s.ended = true) : s.onActivity = s := by
  simp [onActivity, ownsSession, h]

-- Interaction always leaves time on the clock, whatever the old deadline was.
theorem onActivity_running (hi : s.installed = some s.token) (h : s.ended = false) :
    ∃ t, s.onActivity = { s with deadline := s.now + idleLimitMs, idleTimer := t } := by
  have ho : s.ownsSession = true := by simp [ownsSession, h, hi]
  have hi' : ({ s with deadline := s.now + idleLimitMs } : Watch).installed = some s.token := hi
  obtain ⟨_, hd, _⟩ | ⟨_, t, ht⟩ := scheduleIdle_cases hi'
  · simp only [idleLimitMs] at hd
    omega
  · refine ⟨t, ?_⟩
    simp only [onActivity, ho, Bool.not_true, Bool.false_eq_true, if_false]
    exact ht

-- No storage event ends a session for being idle.
theorem onStorage_calls {key : Option String} :
    ∃ new, s.onStorage key = { s with calls := s.calls ++ new } ∧
      .terminateSession .idle ∉ new := by
  have hkept : s = { s with calls := s.calls ++ [] } := by simp
  simp only [onStorage]
  split
  case isTrue => exact ⟨[], hkept, by simp⟩
  case isFalse =>
    split
    case h_1 | h_2 => exact ⟨_, rfl, by simp⟩
    case h_3 =>
      split
      · exact ⟨_, rfl, by simp⟩
      · exact ⟨[], hkept, by simp⟩

theorem onExpiry_cases (hi : s.installed = some s.token) :
    (s.ended = true ∧ s.onExpiry = s) ∨
    (s.onExpiry = { s with calls := s.calls ++ [.terminateSession .expired] }) := by
  cases he : s.ended
  case true  => exact .inl ⟨rfl, by simp [onExpiry, ownsSession, he]⟩
  case false => exact .inr <| by simp [onExpiry, ownsSession, he, hi, call]

theorem step_inv (h : s.step e = some s') :
    s.now ≤ e.now ∧ s.enabled e.now e.kind = true ∧ s' = { s with now := e.now }.handle e.kind := by
  simp only [step] at h
  split at h <;> cases h
  case isTrue h => exact ⟨h.left, h.right, rfl⟩

end Watch

-- An event that runs `scheduleIdle`: the watcher it runs on differs only in its timers and clock.
theorem WatchStep.of_scheduleIdle {s₁ : Watch} (hi : s₁.installed = some s₁.token)
    (hk : e.kind ≠ .activity) (hn : s₁.now = e.now) (he : s₁.ended = s.ended)
    (hd : s₁.deadline = s.deadline) (hc : s₁.calls = s.calls) : WatchStep s e s₁.scheduleIdle := by
  obtain ⟨hr, hl, h⟩ | ⟨hl, t, h⟩ := Watch.scheduleIdle_cases hi
  case inl => exact .idled hk (he ▸ hr) (by omega) (by simp [h]) (by simp [h, hd]) (by simp [h, hc])
  case inr =>
    rw [he, hd, hn] at hl
    refine .kept [] ?_ ?_ ?_ ?_ ?_ ?_ <;> simp [h, hk, he, hd, hc]
    exact fun _ => hl

theorem step_watchStep (h : s.step e = some s') (hi : s.installed = some s.token) :
    WatchStep s e s' := by
  obtain ⟨-, -, rfl⟩ := Watch.step_inv h
  obtain ⟨now, k⟩ := e
  clear h
  have hkept {k} (hk : k ≠ .activity) (hr : ¬k.Returns) {s'} (he : s'.ended = s.ended)
    (hd : s'.deadline = s.deadline) (hc : s'.calls = s.calls) : WatchStep s ⟨now, k⟩ s' :=
    .kept [] (fun h => absurd h hk) (fun h => absurd h hr) he hd (by simp [hc]) (by simp)
  cases k <;> simp only [Watch.handle]
  case activity =>
    rcases Bool.eq_false_or_eq_true s.ended with (he | he)
    · rw [@Watch.onActivity_ended { s with now } he]
      exact .kept [] (fun _ => he) (fun _ => .inl he) rfl rfl (by simp) (by simp)
    · obtain ⟨t, h⟩ := @Watch.onActivity_running { s with now } hi he
      rw [h]
      exact .renewed rfl he he rfl rfl
  case visibilitychange visible =>
    cases visible
    case true  => exact .of_scheduleIdle hi (by simp) rfl rfl rfl rfl
    case false => exact hkept (by simp) (by simp [Kind.Returns]) rfl rfl rfl
  case storage key =>
    obtain ⟨new, h, hn⟩ := @Watch.onStorage_calls { s with now } key
    rw [h]
    exact .kept _ (by simp) (by simp [Kind.Returns]) rfl rfl rfl hn
  case idleTimer => exact .of_scheduleIdle hi (by simp) rfl rfl rfl rfl
  case expiryTimer =>
    obtain ⟨he, h⟩ | h := @Watch.onExpiry_cases { s with now, expiryTimer := none } hi
    all_goals rw [h]
    · exact .kept [] (by simp) (fun _ => .inl he) rfl rfl (by simp) (by simp)
    · exact .kept _ (by simp) (fun _ => .inr <| .inr ⟨.expired, by simp⟩) rfl rfl rfl (by simp)
  case install => exact hkept (by simp) (by simp [Kind.Returns]) rfl rfl rfl
  case unmount => exact hkept (by simp) (by simp [Kind.Returns]) rfl rfl rfl

theorem WatchStep.over (h : WatchStep s e s') (ho : s.Over) : s'.Over := by
  obtain ⟨r, hr⟩ := ho
  cases h
  case idled hc   => exact ⟨r, hc ▸ List.mem_append_left _ hr⟩
  case renewed hc => exact ⟨r, hc ▸ hr⟩
  case kept hc _  => exact ⟨r, hc ▸ List.mem_append_left _ hr⟩

@[simp]
theorem lastActivity_nil : lastActivity t₀ [] = t₀ :=
  rfl

@[simp]
theorem lastActivity_snoc : lastActivity t₀ (es ++ [e]) =
    if e.kind = .activity then e.now else lastActivity t₀ es := by
  simp [lastActivity]

-- A watcher that has not ended its session counts the limit from the latest activity.
structure Tracks (t₀ : Int) (es : List Event) (s : Watch) : Prop where
  deadline : s.ended = false → s.deadline = lastActivity t₀ es + idleLimitMs
  ended    : s.ended = true → s.Over

theorem mount_tracks {installed : Option String} {exp : Option Rat}
    (h : Watch.mount installed exp t₀ = some s) : Tracks t₀ [] s := by
  have hs {s₁ : Watch} (hi : s₁.installed = some s₁.token) (he : s₁.ended = false)
      (hd : s₁.deadline = t₀ + idleLimitMs) (hn : s₁.now = t₀) : Tracks t₀ [] s₁.scheduleIdle := by
    obtain ⟨_, hl, _⟩ | ⟨_, t, h⟩ := Watch.scheduleIdle_cases hi
    · simp only [hd, hn, idleLimitMs] at hl
      omega
    · exact ⟨by simp [h, hd], by simp [h, he]⟩
  simp only [Watch.mount] at h
  split at h
  case h_1 | h_2 => contradiction
  case h_3 => split at h <;> cases h <;> exact hs rfl rfl rfl rfl

theorem WatchStep.tracks (h : WatchStep s e s') (ht : Tracks t₀ es s) :
    Tracks t₀ (es ++ [e]) s' := by
  cases h
  case idled hk hr hd he hd' hc =>
    exact ⟨by simp [he], fun _ => ⟨.idle, by simp [hc]⟩⟩
  case renewed hk hr he hd hc => exact ⟨by simp [hk, hd], by simp [he]⟩
  case kept new hk hr he hd hc hn =>
    refine ⟨fun h => ?_, fun h => WatchStep.over (.kept new hk hr he hd hc hn) (ht.ended (he ▸ h))⟩
    have hr := he ▸ h
    have hk : e.kind ≠ .activity := fun h => by simp [hk h] at hr
    simpa [hk, hd] using ht.deadline hr

theorem tracks {s₀ : Watch} (h₀ : Tracks t₀ [] s₀) (r : Run Watch.step s₀ es s)
    (hi : Run.Along Watch.step s₀ Installed es) : Tracks t₀ es s :=
  r.history_along h₀ (fun _ _ _ _ _ ht hi hs => (step_watchStep hs hi).tracks ht) hi

-- An idle teardown is never early, timely or not.
theorem WatchStep.idle_late (h : WatchStep s e s') (ht : Tracks t₀ es s) {new : List Call}
    (hc : s'.calls = s.calls ++ new) (hn : .terminateSession .idle ∈ new) :
    lastActivity t₀ es + idleLimitMs ≤ e.now := by
  cases h
  case idled hr hd _ _ _ => exact ht.deadline hr ▸ hd
  case renewed hc' =>
    simp only [hc', List.self_eq_append_right] at hc
    simp [hc] at hn
  case kept hc' hn' =>
    obtain rfl := List.append_cancel_left (hc'.symm.trans hc)
    exact absurd hn hn'

theorem WatchStep.idleLimited (h : WatchStep s e s') (ht : Tracks t₀ es s) (hl : Timely s e) :
    IdleLimited t₀ es s e s' where
  idle_late _ := h.idle_late ht
  ends hr hd := by
    cases he : s.ended
    case true => exact h.over (ht.ended he)
    case false =>
      rw [← ht.deadline he] at hd
      cases hs : h
      case idled hc => exact ⟨.idle, by simp [hc]⟩
      case renewed hk _ _ _ _ =>
        obtain hl | hl := hl hk
        · omega
        · exact h.over hl
      case kept hk hr' _ _ hc _ =>
        obtain h | h | ⟨r, h⟩ := hr' hr
        · simp [h] at he
        · omega
        · exact ⟨r, by simp [hc, h]⟩

-- Activity past the deadline makes no call, so a session that was not over lives on.
theorem WatchStep.timely (h : WatchStep s e s') (ht : Tracks t₀ es s)
    (hl : IdleLimited t₀ es s e s') : Timely s e := by
  intro hk
  by_contra hn
  obtain ⟨hd, ho⟩ := not_or.mp hn
  have he : s.ended = false := by
    by_contra he
    exact ho <| ht.ended <| by simpa using he
  rw [ht.deadline he] at hd
  cases h
  case idled hk' _ _ _ _ _ => exact hk' hk
  case renewed hc =>
    obtain ⟨r, hr⟩ := hl.ends (by simp [hk, Kind.Returns]) (by omega)
    exact ho ⟨r, hc ▸ hr⟩
  case kept hk' _ _ _ _ _ => simp [hk' hk] at he

-- Every step of a run keeps to the idle limit exactly when activity never comes late.
theorem idleLimited_iff_timely {installed : Option String} {exp : Option Rat} {s₀ : Watch}
    (hm : Watch.mount installed exp t₀ = some s₀) (r : Run Watch.step s₀ es s)
    (hi : Run.Along Watch.step s₀ Installed es) :
    Run.EachStep Watch.step s₀ (IdleLimited t₀) es ↔ Run.Along Watch.step s₀ Timely es := by
  rw [← Run.eachStep_iff_along r]
  refine Run.eachStep_congr ?_
  rintro es₁ e es₂ s₁ s₂ rfl r₁ hs
  have ht := tracks (mount_tracks hm) r₁ <| hi.of_prefix (by simp)
  have h := step_watchStep hs <| hi _ _ _ _ rfl r₁
  exact ⟨h.timely ht, h.idleLimited ht⟩

section Late

def lateWatch : Watch where
  token       := "watched"
  installed   := some "watched"
  ended       := false
  deadline    := idleLimitMs
  idleTimer   := some idleLimitMs
  expiryTimer := some 28770000
  mounted     := true
  now         := 0
  calls       := []

theorem mount_lateWatch : Watch.mount (some "watched") (some 28800000) 0 = some lateWatch := by
  decide +kernel

-- A key pressed just past the deadline, before the timer has come round.
def lateActivity : Event where
  now  := idleLimitMs + 1
  kind := .activity

def revivedWatch : Watch :=
  { lateWatch with
    deadline  := 2 * idleLimitMs + 1
    idleTimer := some (2 * idleLimitMs + 1)
    now       := idleLimitMs + 1 }

theorem lateActivity_revives : lateWatch.step lateActivity = some revivedWatch := by
  decide

theorem lateActivity_installed : Run.Along Watch.step lateWatch Installed [lateActivity] :=
  (Run.along_snoc_iff .nil).mpr ⟨Run.along_nil, rfl⟩

theorem idleLimited_iff_timely_lateWatch :
    Run.EachStep Watch.step lateWatch (IdleLimited 0) [lateActivity] ↔
      Run.Along Watch.step lateWatch Timely [lateActivity] :=
  idleLimited_iff_timely mount_lateWatch (.single lateActivity_revives) lateActivity_installed

-- The limit has passed, the timer is late, and the interaction starts a fresh window.
theorem not_idleLimited_lateActivity :
    ¬∀ installed exp t₀ s₀ es e s s', Watch.mount installed exp t₀ = some s₀ →
      Run Watch.step s₀ es s → s.step e = some s' →
      Run.Along Watch.step s₀ Installed (es ++ [e]) → IdleLimited t₀ es s e s' := by
  intro h
  have h := h _ _ _ _ _ _ _ _ mount_lateWatch .nil lateActivity_revives lateActivity_installed
  obtain ⟨r, hr⟩ := h.ends trivial (by decide)
  simp [revivedWatch, lateWatch] at hr

end Late
end SessionWatch
